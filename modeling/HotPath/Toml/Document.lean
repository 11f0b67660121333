import HotPath.Toml.Scalar

/-!
# TOML documents

A document is a sequence of statements, one a line: a header opens a table, and an entry puts a
value under a dotted key of the open table. A table has one header, a dotted key does not lead into
a table with a header of its own, and a value that is written as a whole is not added to.

* `readValue`: one value with everything nested in it.
* `read`: the table that a document stands for, or the first place where it breaks a rule.
-/

namespace HotPath.Toml

/-- The characters of a part of a key that stands without quotes. -/
def isBare (c : Char) : Bool := c.isAlphanum || c = '-' || c = '_'

def skipComment (s : List Char) : Except Stop (List Char) :=
  match s with
  | '#' :: rest =>
    let comment := rest.takeWhile (· ≠ '\n')
    match comment.dropWhile (!isControl false ·) with
    | c :: _ => .error (.problem (.invalidCharacter c) (rest.dropWhile (!isControl false ·)))
    | [] => .ok (rest.drop comment.length)
  | s => .ok s

/-- Skips spaces, line feeds and comments; `inComment` says whether a comment has begun. -/
def skipFiller (inComment : Bool) : List Char → Except Stop (List Char)
  | [] => .ok []
  | c :: rest =>
    if inComment then
      if c = '\n' then skipFiller false rest
      else if isControl false c then .error (.problem (.invalidCharacter c) (c :: rest))
      else skipFiller true rest
    else if isFiller c then skipFiller false rest
    else if c = '#' then skipFiller true rest
    else .ok (c :: rest)

def keyPart (s : List Char) : Except Stop (Reading String) :=
  let bare := s.takeWhile isBare
  if bare ≠ [] then .ok (.ofList bare, s.drop bare.length)
  else match s with
    | '"' :: rest => (basicText false rest).map fun r => (.ofList r.1, r.2)
    | '\'' :: rest => (literalText false ['\''] rest).map fun r => (.ofList r.1, r.2)
    | _ => .error (.problem .invalidKeyStart s)

/-- Reads a dotted key of at most `fuel` parts, and the spaces behind it. -/
def keyParts (fuel : Nat) (s : List Char) : Except Stop (Reading Key) :=
  match fuel with
  | 0 => .error (.problem .invalidKeyStart s)
  | fuel + 1 => do
    let (part, s) ← keyPart s
    match s.dropWhile isSpace with
    | '.' :: rest =>
      let (parts, s) ← keyParts fuel (rest.dropWhile isSpace)
      return (part :: parts, s)
    | s => return ([part], s)

/-- Reads a dotted key and the spaces behind it; every part but the first stands behind a point. -/
def readKey (s : List Char) : Except Stop (Reading Key) := keyParts (s.length + 1) s

def skipEquals : List Char → Except Stop (List Char)
  | '=' :: rest => .ok (rest.dropWhile isSpace)
  | s => .error (.problem .missingEquals s)

/-- Whether a key or the start of a key is among `keys`. -/
def isWithin (keys : List Key) (key : Key) : Bool := keys.any fun k => k.isPrefixOf key

def orStop {α : Type} (problem : Problem) (rest : List Char) (answer : Option α) :
    Except Stop α :=
  match answer with
  | some a => .ok a
  | none => .error (.problem problem rest)

/-- The table between two braces with one more entry; `whole` holds the keys of the values that are
not added to, and `rest` is the text behind the entry. -/
def addInline (whole : List Key) (key : Key) (v : Value) (rest : List Char) (t : Table) :
    Except Stop Table := do
  let up := key.dropLast
  let name := key.getLastD ""
  if isWithin whole key then throw (.problem (.immutable key) rest)
  let t ← orStop .overwritten rest (updateTable false some up t)
  orStop (.duplicateName name) rest (updateTable false (addNew name v) up t)

/-- A value that is a single word or number. -/
def readScalar (s : List Char) : Except Stop (Reading Value) :=
  if "true".toList.isPrefixOf s then .ok (.boolean true, s.drop 4)
  else if "false".toList.isPrefixOf s then .ok (.boolean false, s.drop 5)
  else match moment? s <|> number? s <|> (special? s).map .ok with
    | some reading => reading
    | none => .error (.problem .invalidValue s)

mutual

def valueWith (fuel : Nat) (s : List Char) : Except Stop (Reading Value) :=
  match fuel with
  | 0 => .error (.problem .invalidValue s)
  | fuel + 1 =>
    match quotedText? s with
    | some reading => reading.map fun r => (.string (.ofList r.1), r.2)
    | none => match s with
      | '[' :: rest => (itemsWith fuel rest).map fun r => (.array r.1, r.2)
      | '\x7b' :: rest =>
        match rest.dropWhile isSpace with
        | '\x7d' :: rest => .ok (.table [], rest)
        | rest => (entriesWith fuel [] [] rest).map fun r => (.table r.1, r.2)
      | s => readScalar s

def itemsWith (fuel : Nat) (s : List Char) : Except Stop (Reading (List Value)) :=
  match fuel with
  | 0 => .error (.problem .invalidValue s)
  | fuel + 1 => do
    match ← skipFiller false s with
    | ']' :: rest => return ([], rest)
    | s =>
      let (v, s) ← valueWith fuel s
      match ← skipFiller false s with
      | ']' :: rest => return ([v], rest)
      | ',' :: rest =>
        let (vs, s) ← itemsWith fuel rest
        return (v :: vs, s)
      | s => throw (.problem .unclosedArray s)

/-- Reads the entries between two braces, up to the closing one, behind the entries of `t`. -/
def entriesWith (fuel : Nat) (whole : List Key) (t : Table) (s : List Char) :
    Except Stop (Reading Table) :=
  match fuel with
  | 0 => .error (.problem .invalidValue s)
  | fuel + 1 => do
    let (key, s) ← readKey s
    let (v, s) ← valueWith fuel (← skipEquals s)
    let t ← addInline whole key v s t
    match s.dropWhile isSpace with
    | '\x7d' :: rest => return (t, rest)
    | ',' :: rest =>
      entriesWith fuel (if v.isContainer then key :: whole else whole) t (rest.dropWhile isSpace)
    | s => throw (.problem .unclosedInlineTable s)

end

/-- Reads a value. Every step of the readers above comes closer to the end of the text, or goes from
a list to its next item, so twice the length of the text bounds their number. -/
def readValue (s : List Char) : Except Stop (Reading Value) := valueWith (2 * s.length + 2) s

/-- A document that has been read in part. -/
structure Draft where
  root : Table
  /-- The tables that have a header, or were made by a dotted key under an earlier header. -/
  declared : List Key
  /-- The tables that dotted keys made under the open header. -/
  pending : List Key
  /-- The arrays and tables that were written as a whole. -/
  whole : List Key
  header : Key

def Draft.empty : Draft := ⟨[], [], [], [], []⟩

/-- The draft at the start of a header. -/
def Draft.settle (d : Draft) : Draft :=
  { d with declared := d.pending ++ d.declared, pending := [] }

/-- Opens the table of a header; `rest` is the text behind its key. -/
def Draft.openTable (d : Draft) (key : Key) (rest : List Char) : Except Stop Draft := do
  let d := d.settle
  if d.declared.contains key || isWithin d.whole key then
    throw (.problem (.declaredTwice key) rest)
  let root ← orStop .overwritten rest (updateTable true some key d.root)
  return { d with root, declared := key :: d.declared, header := key }

/-- Opens a new table of the array of a header; `rest` is the text behind its key. -/
def Draft.openItem (d : Draft) (key : Key) (rest : List Char) : Except Stop Draft := do
  let d := d.settle
  if isWithin d.whole key then throw (.problem (.immutable key) rest)
  let outside (keys : List Key) : List Key := keys.filter fun k => !key.isPrefixOf k
  let change := addItem (key.getLastD "")
  let root ← orStop .overwritten rest (updateTable true change key.dropLast d.root)
  return { d with root, declared := key :: outside d.declared, whole := outside d.whole,
                  header := key }

/-- The starts of a key that are neither empty nor the whole key. -/
def properStarts (key : Key) : List Key := ((List.range key.length).drop 1).map key.take

/-- Adds an entry to the open table; `rest` is the text behind the entry. -/
def Draft.addEntry (d : Draft) (key : Key) (v : Value) (rest : List Char) : Except Stop Draft := do
  let full := d.header ++ key
  let ways := (properStarts key).map (d.header ++ ·)
  match ways.find? d.declared.contains with
  | some way => throw (.problem (.redefined way) rest)
  | none => pure ()
  if isWithin d.whole full.dropLast then throw (.problem (.immutable full.dropLast) rest)
  let change := addNew (full.getLastD "") v
  let root ← orStop .overwritten rest (updateTable true change full.dropLast d.root)
  return { d with root, pending := ways ++ d.pending,
                  whole := if v.isContainer then full :: d.whole else d.whole }

/-- Reads a header behind its opening brackets. -/
def Draft.readHeader (d : Draft) : List Char → Except Stop (Draft × List Char)
  | '[' :: rest => do
    let (key, s) ← readKey (rest.dropWhile isSpace)
    let d ← d.openItem key s
    match s with
    | ']' :: ']' :: rest => return (d, rest)
    | s => throw (.problem .unclosedArrayHeader s)
  | s => do
    let (key, s) ← readKey (s.dropWhile isSpace)
    let d ← d.openTable key s
    match s with
    | ']' :: rest => return (d, rest)
    | s => throw (.problem .unclosedHeader s)

def Draft.readStatement (d : Draft) (s : List Char) : Except Stop (Draft × List Char) :=
  match s with
  | [] => .ok (d, [])
  | c :: rest =>
    if c = '[' then d.readHeader rest
    else if c = '#' || c = '\n' then .ok (d, c :: rest)
    else if isBare c || c = '"' || c = '\'' then do
      let (key, s) ← readKey (c :: rest)
      let (v, s) ← readValue (← skipEquals s)
      return (← d.addEntry key v s, s)
    else .error (.problem .invalidStatement s)

def Draft.readLines (fuel : Nat) (d : Draft) (s : List Char) : Except Stop Draft :=
  match fuel with
  | 0 => .ok d
  | fuel + 1 => do
    let (d, s) ← d.readStatement (s.dropWhile isSpace)
    match ← skipComment (s.dropWhile isSpace) with
    | [] => return d
    | '\n' :: rest => readLines fuel d rest
    | s => throw (.problem .strayText s)

/-- The text with a line feed for each pair of a carriage return and a line feed. -/
def joinBreaks : List Char → List Char
  | '\r' :: '\n' :: rest => '\n' :: joinBreaks rest
  | c :: rest => c :: joinBreaks rest
  | [] => []

def read (text : List Char) : Except DocumentError Table :=
  let text := joinBreaks text
  match Draft.empty.readLines (text.length + 1) text with
  | .ok d => .ok d.root
  | .error stop => .error (stop.error text)

end HotPath.Toml
