import HotPath.Report.CostLine

/-!
# Ranking cost lines

The hottest lines are those of the greatest cost; among lines of equal cost the earlier one comes
first.

* `hottest`: the first `n` lines of the ranking.
* `mem_ranking`: ranking neither loses nor adds lines.
-/

namespace HotPath.Report

/-- Whether `a` may stand in front of `b`: it costs at least as much. -/
def ranksBefore (a b : CostLine) : Bool := b.cost ≤ a.cost

/-- The lines by descending cost, lines of equal cost in their order. -/
def ranking (lines : List CostLine) : List CostLine := lines.mergeSort ranksBefore

inductive RankError where
  | countTooSmall (count : Int)
  deriving Repr, DecidableEq

def RankError.message : RankError → String
  | .countTooSmall count => Text.textAround "n must be >= 1 (got " count ")"

/-- The first `count` lines of the ranking. -/
def hottest (count : Int) (lines : List CostLine) : Except RankError (List CostLine) :=
  if count < 1 then .error (.countTooSmall count) else .ok ((ranking lines).take count.toNat)

theorem mem_ranking {l : CostLine} {lines : List CostLine} : l ∈ ranking lines ↔ l ∈ lines :=
  List.mem_mergeSort

end HotPath.Report
