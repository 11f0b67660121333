import HotPath.Number.Binary64
import HotPath.Text.Grouped
import HotPath.Text.Lines

/-!
# Cost lines

An annotation report attributes costs to source locations, one per line:

    3,075,432 (38.6%)  12 (0.7%)  src/eval.rs:eval

A cost line starts with an optional marker `<` or `>` and a cost. A share of the total in percent
may follow between parentheses, alone or with a cumulative share behind a comma. The rest of the
line holds further columns and names; the location is its first word that starts with one of the
prefixes asked for. Lines without a location are not cost lines.

* `CostLine.parse`: reads a line.
* `CostLine.ofText`: the cost lines of a text.
-/

namespace HotPath.Report

open Text

/-- A line of an annotation report that belongs to a location. -/
structure CostLine where
  cost : Int
  /-- The share of the total cost in percent, if the line has one. -/
  percent : Option Binary64
  location : String
  /-- The line itself, without blanks at its end. -/
  text : String
  deriving Repr, DecidableEq

/-- A decimal number: the digits before its point and, if there is a point, those behind it. -/
structure DecimalText where
  whole : List Char
  fraction : List Char
  deriving Repr, DecidableEq

def DecimalText.value (d : DecimalText) : Binary64 :=
  .ofDecimal false (natOfDigits (d.whole ++ d.fraction)) (-d.fraction.length)

/-- Reads a percentage, digits with an optional fraction and a percent sign. -/
def percentage? (s : List Char) : Option (DecimalText × List Char) :=
  let whole := s.takeWhile isDigit
  if whole = [] then none
  else match s.dropWhile isDigit with
    | '%' :: rest => some (⟨whole, []⟩, rest)
    | '.' :: more =>
      let fraction := more.takeWhile isDigit
      match fraction, more.dropWhile isDigit with
      | _ :: _, '%' :: rest => some (⟨whole, fraction⟩, rest)
      | _, _ => none
    | _ => none

/-- Reads the closing parenthesis of a share, with the cumulative share in front of it if there is
one. -/
def shareEnd? : List Char → Option (List Char)
  | ')' :: rest => some rest
  | ',' :: more =>
    match percentage? (more.dropWhile isBlank) with
    | some (_, ')' :: rest) => some rest
    | _ => none
  | _ => none

/-- Reads the share in percent that stands behind the blanks after a cost. -/
def share? : List Char → Option (DecimalText × List Char)
  | '(' :: inside =>
    match percentage? (inside.dropWhile isBlank) with
    | some (percent, more) => (shareEnd? more).map (percent, ·)
    | none => none
  | _ => none

/-- The remaining columns of a line: at least one blank, then a text that goes up to the end of the
line or to the line feed that ends it. -/
def columns? (s : List Char) : Option (List Char) :=
  let body := s.dropWhile isBlank
  let text := body.takeWhile (· ≠ '\n')
  if body.length = s.length || text = [] then none
  else if (body.drop text.length).length ≤ 1 then some text
  else none

/-- The part of a line behind its cost: the share in percent, if there is one that columns follow,
and the columns. -/
def afterCost? (s : List Char) : Option (Option DecimalText × List Char) :=
  let plain := (columns? s).map (none, ·)
  let body := s.dropWhile isBlank
  if body.length = s.length then none
  else match share? body with
    | some (percent, rest) =>
      match columns? rest with
      | some columns => some (some percent, columns)
      | none => plain
    | none => plain

/-- The first word of the columns that starts with one of the prefixes. -/
def location? (prefixes : List String) (columns : List Char) : Option (List Char) :=
  (words columns).find? fun w => prefixes.any fun p => p.toList.isPrefixOf w

inductive CostError where
  | tooManyDigits (count : Nat)
  deriving Repr, DecidableEq

def CostError.message : CostError → String
  | .tooManyDigits count => tooManyDigitsText count

def dropMarker : List Char → List Char
  | '<' :: rest => rest
  | '>' :: rest => rest
  | s => s

/-- The characters of a cost behind its first digit. -/
def isCostChar (c : Char) : Bool := isDigit c || c = ','

/-- Splits a line into its cost and what follows it. -/
def cost? (line : List Char) : Option (List Char × List Char) :=
  match (dropMarker line).dropWhile isBlank with
  | [] => none
  | c :: rest =>
    if isDigit c then some (c :: rest.takeWhile isCostChar, rest.dropWhile isCostChar) else none

/-- The columns of a line: its cost, its share and its location, if it has them all. -/
def reading? (prefixes : List String) (line : List Char) :
    Option (List Char × Option DecimalText × List Char) := do
  let (cost, rest) ← cost? line
  let (percent, columns) ← afterCost? rest
  let location ← location? prefixes columns
  return (cost, percent, location)

/-- Reads a line; a line that is not a cost line of one of the prefixes gives nothing. -/
def CostLine.parse (prefixes : List String) (line : List Char) :
    Except CostError (Option CostLine) :=
  match reading? prefixes line with
  | none => .ok none
  | some (cost, percent, location) =>
    let digits := cost.filter (· ≠ ',')
    if maxDigits < digits.length then .error (.tooManyDigits digits.length)
    else .ok (some ⟨natOfDigits digits, percent.map (·.value), .ofList location,
      .ofList (trimRight line)⟩)

/-- The cost lines of the prefixes in a text, in order. -/
def CostLine.ofText (prefixes : List String) (text : String) : Except CostError (List CostLine) :=
  return ((← (lines text.toList).mapM (CostLine.parse prefixes)).filterMap id)

end HotPath.Report
