/-!
# TOML values

A TOML document is a table: an ordered list of entries, each a name with a value. A dotted key leads
through nested tables. Numbers and dates are kept as they are written.

* `updateTable`: changes the table behind a dotted key, with the tables on the way made as needed.
-/

namespace HotPath.Toml

abbrev Key := List String

inductive Value where
  | string (s : String)
  | integer (text : String)
  | float (text : String)
  | boolean (b : Bool)
  | date (text : String)
  | dateTime (text : String)
  | time (text : String)
  | array (items : List Value)
  | table (entries : List (String × Value))

abbrev Table := List (String × Value)

def Value.isContainer : Value → Bool
  | .array _ => true
  | .table _ => true
  | _ => false

/-- The table with `v` under `name`, in the place of what was there, else at the end. -/
def insertAt (name : String) (v : Value) : Table → Table
  | [] => [(name, v)]
  | (n, w) :: rest => if n = name then (n, v) :: rest else (n, w) :: insertAt name v rest

/-- Changes the table behind a key. A table that is missing on the way is made. An array on the way
stands for its last item if `throughArrays` says so; any other value ends the way, and there is no
answer. -/
def updateTable (throughArrays : Bool) (change : Table → Option Table) : Key → Table → Option Table
  | [], t => change t
  | name :: rest, t =>
    match t.lookup name with
    | none => do
      return insertAt name (.table (← updateTable throughArrays change rest [])) t
    | some (.table inner) => do
      return insertAt name (.table (← updateTable throughArrays change rest inner)) t
    | some (.array items) =>
      match throughArrays, items.getLast? with
      | true, some (.table inner) => do
        let inner ← updateTable throughArrays change rest inner
        return insertAt name (.array (items.dropLast ++ [.table inner])) t
      | _, _ => none
    | some _ => none

/-- The table with a new entry; there is none if the name is taken. -/
def addNew (name : String) (v : Value) (t : Table) : Option Table :=
  match t.lookup name with
  | none => some (insertAt name v t)
  | some _ => none

/-- The table with one more empty table in the array under `name`, which is made if it is missing;
there is none if the name stands for anything else. -/
def addItem (name : String) (t : Table) : Option Table :=
  match t.lookup name with
  | none => some (insertAt name (.array [.table []]) t)
  | some (.array items) => some (insertAt name (.array (items ++ [.table []])) t)
  | some _ => none

end HotPath.Toml
