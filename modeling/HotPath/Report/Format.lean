import HotPath.Report.Ranking

/-!
# Reports

A report shows cost lines, either as they are or as a table in Markdown. A table shows their costs
in groups of three digits, so there is none if a cost has too many digits to be written. A pipe in a
location is escaped twice: once as the text of a cell, and once more when the cell is put into the
table.

Headings and tables are laid out by a writer of Markdown that is assumed and not described further.
What is assumed of its layout is said at `tableRow`, `heading`, `tableRows` and `markdownReport`.

* `Report.render`: the report of a format given by its name.
-/

namespace HotPath.Report

inductive Format where
  | text
  | markdown
  deriving Repr, DecidableEq

def Format.name : Format → String
  | .text => "text"
  | .markdown => "markdown"

def Format.all : List Format := [.text, .markdown]

inductive FormatError where
  | unknown (name : String)
  /-- A cost has too many digits to be written. -/
  | beyondLimit
  deriving Repr, DecidableEq

def FormatError.message : FormatError → String
  | .unknown name => "Unsupported report format: " ++ name
  | .beyondLimit => Text.beyondLimitText none

/-- The lines, separated by line feeds. -/
def plainReport (lines : List CostLine) : String := "\n".intercalate (lines.map (·.text))

def escapePipes (s : List Char) : List Char :=
  s.flatMap fun c => if c = '|' then ['\\', '|'] else [c]

/-- The share of a line as it is shown, with one place. -/
def CostLine.share (l : CostLine) : List Char := (l.percent.map (·.fixedTenths.toList)).getD []

/-- The cells of a line: its cost, its share and its location. -/
def cells (l : CostLine) : Except FormatError (List (List Char)) :=
  match Text.writeGrouped? l.cost with
  | none => .error .beyondLimit
  | some cost => .ok [cost, l.share, escapePipes l.location.toList]

/-- The row of some cells. Assumed of the layout: a row opens with a pipe, and each cell is followed
by one; the pipes in a cell are escaped, and nothing else is. -/
def tableRow (cells : List (List Char)) : List Char :=
  '|' :: cells.flatMap fun c => escapePipes c ++ ['|']

def title : String := "Hot source lines"

/-- The title as a heading. Assumed of the layout: a heading of the first level stands between line
feeds and is underlined along its whole length. -/
def heading : String :=
  "\n" ++ title ++ "\n" ++ String.ofList (List.replicate title.length '=') ++ "\n"

/-- The rows of the table of a report: the names of its columns, and a row for each line. Assumed of
the layout: the names are a row like any other, and behind them a row of dashes sets every column to
the left. -/
def tableRows (lines : List CostLine) : Except FormatError (List (List Char)) :=
  (lines.mapM cells).map fun rows =>
    tableRow ["Cost".toList, "%".toList, "Location".toList] ::
      "| :--- | :--- | :--- |".toList :: rows.map tableRow

/-- The lines as a table; a sentence stands in for an empty table. Assumed of the layout: a table
starts on a new line and each of its rows ends a line; a paragraph stands behind an empty line. -/
def markdownReport (lines : List CostLine) : Except FormatError String :=
  if lines = [] then .ok (heading ++ "\n\nNo cost lines attributed to project sources.")
  else (tableRows lines).map fun rows =>
    heading ++ "\n" ++ String.join (rows.map fun r => String.ofList r ++ "\n")

def report (f : Format) (lines : List CostLine) : Except FormatError String :=
  match f with
  | .text => .ok (plainReport lines)
  | .markdown => markdownReport lines

def render (format : String) (lines : List CostLine) : Except FormatError String :=
  match Format.all.find? (·.name = format) with
  | some f => report f lines
  | none => .error (.unknown format)

end HotPath.Report
