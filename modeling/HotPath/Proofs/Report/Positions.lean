import HotPath.Proofs.Report.Ranking

/-!
# Where ranked lines come from

A ranking says more than which lines come first: lines can be equal, and then it matters which of
them is shown. So a ranking is described by the positions of its lines. There is one arrangement of
the positions in which the costs descend and positions of equal cost ascend
(`existsUnique_isArrangement`), and it gives the ranking (`IsArrangement.ranking_eq`). The hottest
lines are its first ones (`hottest_eq_take_arranged`).
-/

namespace HotPath.Report

variable {lines : List CostLine} {σ τ : Equiv.Perm (Fin lines.length)}

/-- The positions of some lines, arranged by descending cost and, where costs are equal, by
position. -/
structure IsArrangement (lines : List CostLine) (σ : Equiv.Perm (Fin lines.length)) : Prop where
  descending : ∀ i j, i ≤ j → lines[σ j].cost ≤ lines[σ i].cost
  stable : ∀ i j, i < j → lines[σ i].cost = lines[σ j].cost → σ i < σ j

/-- The lines in the order of some positions. -/
def arranged (lines : List CostLine) (σ : Equiv.Perm (Fin lines.length)) : List CostLine :=
  List.ofFn fun i => lines[σ i]

theorem isArrangement_iff : IsArrangement lines σ ↔ σ = Tuple.sort fun i => -lines[i].cost := by
  rw [Tuple.eq_sort_iff]
  constructor
  · intro h
    refine ⟨fun i j hij => ?_, fun i j hij hcost => ?_⟩
    · exact neg_le_neg (h.descending i j hij)
    · exact h.stable i j hij (neg_injective hcost)
  · rintro ⟨hmono, hstable⟩
    refine ⟨fun i j hij => ?_, fun i j hij hcost => ?_⟩
    · exact neg_le_neg_iff.mp (hmono hij)
    · exact hstable i j hij (congrArg Neg.neg hcost)

/-- There is exactly one such arrangement. -/
theorem existsUnique_isArrangement (lines : List CostLine) :
    ∃! σ : Equiv.Perm (Fin lines.length), IsArrangement lines σ := by
  simp only [isArrangement_iff]
  exact existsUnique_eq

namespace IsArrangement

variable (h : IsArrangement lines σ)

include h

theorem descending_arranged : Descending (arranged lines σ) := by
  rw [Descending, arranged, List.pairwise_ofFn]
  intro i j hij
  exact h.descending i j hij.le

/-- The positions of one cost are arranged as they are. -/
theorem filter_positions (k : Int) :
    (List.ofFn σ).filter (fun i => lines[i].cost = k) =
      (List.finRange lines.length).filter fun i => lines[i].cost = k := by
  have hcost {i : Fin lines.length} {is : List (Fin lines.length)}
      (hi : i ∈ is.filter fun i => lines[i].cost = k) : lines[i].cost = k := by
    simpa using (List.mem_filter.mp hi).2
  have harranged : (List.ofFn σ).Pairwise fun i j => lines[i].cost = lines[j].cost → i < j := by
    rw [List.pairwise_ofFn]
    exact h.stable
  have hsorted : ((List.ofFn σ).filter fun i => lines[i].cost = k).Pairwise (· < ·) := by
    refine (harranged.filter _).imp_of_mem ?_
    intro i j hi hj hij
    exact hij ((hcost hi).trans (hcost hj).symm)
  refine hsorted.eq_of_mem_iff ((List.pairwise_lt_finRange _).filter _) fun i => ?_
  have hi : i ∈ List.ofFn σ := List.mem_ofFn.mpr (σ.surjective i)
  simp only [List.mem_filter, hi, List.mem_finRange]

theorem ofCost_arranged (k : Int) : ofCost k (arranged lines σ) = ofCost k lines := by
  have hlines : (List.finRange lines.length).map (lines[·]) = lines := by simp
  have harranged : (List.ofFn σ).map (lines[·]) = arranged lines σ := List.map_ofFn
  calc ofCost k (arranged lines σ)
      = ((List.ofFn σ).filter fun i => lines[i].cost = k).map (lines[·]) := by
        rw [← harranged, ofCost, List.filter_map]
        rfl
    _ = ((List.finRange lines.length).filter fun i => lines[i].cost = k).map (lines[·]) := by
        rw [h.filter_positions]
    _ = ofCost k lines := by
        conv_rhs => rw [← hlines, ofCost, List.filter_map]
        rfl

theorem ranking_eq : ranking lines = arranged lines σ :=
  ranking_eq_iff.mpr ⟨h.descending_arranged, h.ofCost_arranged⟩

/-- A line behind another costs no more, and where it costs as much it comes later. -/
theorem behind {i j : Fin lines.length} (hij : i < j) :
    lines[σ j].cost ≤ lines[σ i].cost ∧ (lines[σ j].cost = lines[σ i].cost → σ i < σ j) :=
  ⟨h.descending i j hij.le, fun hcost => h.stable i j hij hcost.symm⟩

end IsArrangement

/-- **The hottest lines.** There is exactly one arrangement of the lines by descending cost that
leaves lines of equal cost in their order, and the hottest lines are the first ones of it. No line
is shown more often than it is there, and a line that is not shown costs no more than one that is,
and comes later where it costs as much. A count below one is refused. -/
theorem hottest_eq_take_arranged (count : Int) (lines : List CostLine) :
    if count < 1 then hottest count lines = .error (.countTooSmall count)
    else ∃ σ, IsArrangement lines σ ∧ (∀ τ, IsArrangement lines τ → τ = σ) ∧ ∃ top,
      hottest count lines = .ok top ∧
      top = (arranged lines σ).take (min count.toNat lines.length) ∧
      (∀ l, top.count l ≤ lines.count l) ∧
      ∀ i j : Fin lines.length, i < count.toNat → count.toNat ≤ j →
        lines[σ j].cost ≤ lines[σ i].cost ∧ (lines[σ j].cost = lines[σ i].cost → σ i < σ j) := by
  split
  · exact if_pos ‹_›
  · rename_i hcount
    obtain ⟨σ, hσ, hunique⟩ := existsUnique_isArrangement lines
    refine ⟨σ, hσ, hunique, _, if_neg hcount, ?_, fun l => ?_, fun i j hi hj => ?_⟩
    · have hlength : (arranged lines σ).length = lines.length := List.length_ofFn
      rw [hσ.ranking_eq, ← hlength, List.take_eq_take_min]
    · rw [← (perm_ranking lines).count_eq l]
      exact (List.take_sublist _ _).count_le l
    · exact hσ.behind (Fin.lt_def.mpr (hi.trans_le hj))

end HotPath.Report
