import HotPath.Report.Format

/-!
# From annotations to a report

The annotations of a run are reduced to the lines of a project, ranked, cut, and shown.

* `summary`: the report on the hottest lines of a text of annotations.
-/

namespace HotPath.Report

inductive SummaryError where
  | cost (reason : CostError)
  | rank (reason : RankError)
  | format (reason : FormatError)
  deriving Repr, DecidableEq

def SummaryError.message : SummaryError → String
  | .cost reason => reason.message
  | .rank reason => reason.message
  | .format reason => reason.message

/-- The `count` hottest lines of the prefixes in a text. -/
def hottestLines (prefixes : List String) (count : Int) (text : String) :
    Except SummaryError (List CostLine) := do
  let lines ← (CostLine.ofText prefixes text).mapError .cost
  (hottest count lines).mapError .rank

/-- The report on the `count` hottest lines of the prefixes in a text. -/
def summary (prefixes : List String) (count : Int) (format text : String) :
    Except SummaryError String := do
  let lines ← hottestLines prefixes count text
  (render format lines).mapError .format

end HotPath.Report
