/-!
# Paths

A path is a sequence of names behind an optional root. Writing it down and reading it back forgets
empty names and the name `.`; the name `..` is kept, since it depends on the links of a file system.

* `Path.parse`, `Path.text`: the two directions.
* `Path.append`, `Path.child`: what is seen from a directory.
* `entryText`: the text of an entry of a directory.
-/

namespace HotPath

/-- Where a path starts: at the working directory, at `/`, or at the separate root `//`. -/
inductive Root where
  | relative
  | slash
  | doubleSlash
  deriving Repr, DecidableEq

def Root.text : Root → String
  | .relative => ""
  | .slash => "/"
  | .doubleSlash => "//"

/-- A path: its root and the names below it. -/
structure Path where
  root : Root
  names : List String
  deriving Repr, DecidableEq

namespace Path

/-- The pieces of a text between slashes. -/
def pieces : List Char → List (List Char)
  | [] => [[]]
  | c :: rest =>
    if c = '/' then [] :: pieces rest
    else match pieces rest with
      | [] => [[c]]
      | p :: ps => (c :: p) :: ps

/-- Whether a piece of a text names something: the empty piece and `.` do not. -/
def isName (piece : List Char) : Bool := piece ≠ [] && piece ≠ ['.']

def namesOf (text : List Char) : List String :=
  ((pieces text).filter isName).map String.ofList

/-- The root of a text: two slashes are a root of their own, any other number counts as one. -/
def rootOf : List Char → Root
  | '/' :: '/' :: '/' :: _ => .slash
  | '/' :: '/' :: _ => .doubleSlash
  | '/' :: _ => .slash
  | _ => .relative

def parse (text : String) : Path := ⟨rootOf text.toList, namesOf text.toList⟩

/-- The text of a path; the empty relative path is written `.`. -/
def text (p : Path) : String :=
  if p.root = .relative ∧ p.names = [] then "." else p.root.text ++ "/".intercalate p.names

def isAbsolute (p : Path) : Bool := p.root ≠ .relative

/-- The path `q` seen from `p`: an absolute `q` stands for itself. -/
def append (p q : Path) : Path :=
  if q.isAbsolute then q else ⟨p.root, p.names ++ q.names⟩

/-- The path that a text describes, seen from `p`. -/
def join (p : Path) (text : String) : Path := p.append (parse text)

def child (p : Path) (name : String) : Path := ⟨p.root, p.names ++ [name]⟩

/-- The last name of a path, empty if it has none. -/
def name (p : Path) : String := p.names.getLastD ""

/-- The names that order paths: the text of the root counts as a name of its own. -/
def sortNames (p : Path) : List String :=
  if p.isAbsolute then p.root.text :: p.names else p.names

/-- Whether the items `as` are `bs` or come before them, where the first items that differ
decide. -/
def lexLe {α : Type} [BEq α] (before : α → α → Bool) (as bs : List α) : Bool :=
  match as, bs with
  | [], _ => true
  | _ :: _, [] => false
  | a :: as, b :: bs => before a b || (a == b && lexLe before as bs)

/-- Whether a name comes before another: names are ordered by code points. -/
def nameBefore (m n : String) : Bool :=
  m ≠ n && lexLe (fun c d => c.toNat < d.toNat) m.toList n.toList

/-- Paths are ordered name by name. -/
def le (p q : Path) : Bool := lexLe nameBefore p.sortNames q.sortNames

end Path

/-- The text of the entry `name` of a directory. The directory without a text is the working
directory. -/
def entryText (directory name : String) : String :=
  if directory = "" || directory.toList.getLast? = some '/' then directory ++ name
  else directory ++ "/" ++ name

end HotPath
