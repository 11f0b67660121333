import Mathlib
import HotPath.Report.Ranking

/-!
# The ranking of cost lines

The ranking of some lines is sorted by descending cost and keeps the lines of each cost in their
order. No other list does both (`ranking_eq_iff`).

The top of a ranking can be found in parts. Lines that enough lines in front of them beat do not
reach it (`take_ranking_of_beaten`), so it is enough to look at the tops of the parts
(`take_ranking_append`).
-/

namespace HotPath.Report

/-- No line costs more than a line in front of it. -/
def Descending (lines : List CostLine) : Prop := lines.Pairwise fun a b => b.cost ≤ a.cost

/-- The lines of one cost, in order. -/
def ofCost (k : Int) (lines : List CostLine) : List CostLine := lines.filter (·.cost = k)

variable {as bs lines : List CostLine} {a l : CostLine} {k : Int}

/-! ## Lines of one cost -/

theorem mem_ofCost_iff : l ∈ ofCost k lines ↔ l ∈ lines ∧ l.cost = k := by
  simp [ofCost]

theorem ofCost_append (k : Int) (as bs : List CostLine) :
    ofCost k (as ++ bs) = ofCost k as ++ ofCost k bs :=
  List.filter_append as bs

theorem ofCost_cons_self (l : CostLine) (lines : List CostLine) :
    ofCost l.cost (l :: lines) = l :: ofCost l.cost lines :=
  List.filter_cons_of_pos (by simp)

theorem ofCost_cons_of_ne (h : l.cost ≠ k) (lines : List CostLine) :
    ofCost k (l :: lines) = ofCost k lines :=
  List.filter_cons_of_neg (by simpa using h)

/-- Where lines are kept by their cost alone, all lines of one cost are kept or none is. -/
theorem ofCost_filter (k : Int) (keep : Int → Bool) (lines : List CostLine) :
    ofCost k (lines.filter fun l => keep l.cost) = if keep k then ofCost k lines else [] := by
  have hboth (l : CostLine) : (decide (l.cost = k) && keep l.cost) =
      (keep k && decide (l.cost = k)) := by
    by_cases hk : l.cost = k
    · simp [hk]
    · simp [hk]
  rw [ofCost, List.filter_filter]
  simp only [hboth]
  cases keep k with
  | true => rfl
  | false => simp

/-! ## One ranking -/

theorem Descending.tail (h : Descending (l :: lines)) : Descending lines := List.Pairwise.of_cons h

theorem Descending.le_head (h : Descending (l :: lines)) (ha : a ∈ l :: lines) :
    a.cost ≤ l.cost := by
  rcases List.mem_cons.mp ha with rfl | ha
  · exact le_rfl
  · exact List.rel_of_pairwise_cons h ha

/-- Two sorted lists with the same lines of each cost, in the same order, are equal. -/
theorem Descending.eq_of_ofCost (has : Descending as) (hbs : Descending bs)
    (hties : ∀ k, ofCost k as = ofCost k bs) : as = bs := by
  induction as generalizing bs with
  | nil =>
    cases bs with
    | nil => rfl
    | cons b bs =>
      have hb := hties b.cost
      rw [ofCost_cons_self] at hb
      cases hb
  | cons a as ih =>
    cases bs with
    | nil =>
      have ha := hties a.cost
      rw [ofCost_cons_self] at ha
      cases ha
    | cons b bs =>
      have ha : a ∈ ofCost a.cost (b :: bs) := by
        rw [← hties, ofCost_cons_self]
        exact List.mem_cons_self
      have hb : b ∈ ofCost b.cost (a :: as) := by
        rw [hties, ofCost_cons_self]
        exact List.mem_cons_self
      have hcost : b.cost = a.cost :=
        le_antisymm (has.le_head (mem_ofCost_iff.mp hb).1) (hbs.le_head (mem_ofCost_iff.mp ha).1)
      have hheads := hties a.cost
      rw [ofCost_cons_self, ← hcost, ofCost_cons_self] at hheads
      obtain rfl : a = b := (List.cons.inj hheads).1
      rw [ih has.tail hbs.tail]
      intro k
      by_cases hk : a.cost = k
      · subst hk
        exact (List.cons.inj hheads).2
      · have hrest := hties k
        rwa [ofCost_cons_of_ne hk, ofCost_cons_of_ne hk] at hrest

theorem ranksBefore_trans (a b c : CostLine) (hab : ranksBefore a b) (hbc : ranksBefore b c) :
    ranksBefore a c := by
  simp only [ranksBefore, decide_eq_true_eq] at *
  omega

theorem ranksBefore_total (a b : CostLine) : ranksBefore a b || ranksBefore b a := by
  simp only [ranksBefore, Bool.or_eq_true, decide_eq_true_eq]
  omega

theorem descending_ranking (lines : List CostLine) : Descending (ranking lines) := by
  apply (List.pairwise_mergeSort ranksBefore_trans ranksBefore_total lines).imp
  intro a b hab
  simpa [ranksBefore] using hab

theorem perm_ranking (lines : List CostLine) : (ranking lines).Perm lines :=
  List.mergeSort_perm lines ranksBefore

/-- The ranking keeps the lines of each cost in their order. -/
theorem ofCost_ranking (k : Int) (lines : List CostLine) :
    ofCost k (ranking lines) = ofCost k lines := by
  have hties : (ofCost k lines).Pairwise fun a b => ranksBefore a b := by
    apply List.pairwise_of_forall_mem_list
    intro a ha b hb
    simp [ranksBefore, (mem_ofCost_iff.mp ha).2, (mem_ofCost_iff.mp hb).2]
  have hsublist : List.Sublist (ofCost k lines) (ranking lines) :=
    List.sublist_mergeSort ranksBefore_trans ranksBefore_total hties List.filter_sublist
  have hfiltered : List.Sublist (ofCost k lines) (ofCost k (ranking lines)) := by
    have h := hsublist.filter (·.cost = k)
    simpa only [ofCost, List.filter_filter, Bool.and_self] using h
  exact (hfiltered.eq_of_length ((perm_ranking lines).filter _).length_eq.symm).symm

/-- **The ranking** is the one list that is sorted by descending cost and keeps the lines of each
cost in their order. -/
theorem ranking_eq_iff :
    ranking lines = as ↔ Descending as ∧ ∀ k, ofCost k as = ofCost k lines := by
  constructor
  · rintro rfl
    exact ⟨descending_ranking lines, fun k => ofCost_ranking k lines⟩
  · rintro ⟨has, hties⟩
    apply (descending_ranking lines).eq_of_ofCost has
    intro k
    rw [ofCost_ranking, hties]

theorem ranking_congr (h : ∀ k, ofCost k as = ofCost k bs) : ranking as = ranking bs := by
  rw [ranking_eq_iff]
  refine ⟨descending_ranking bs, fun k => ?_⟩
  rw [ofCost_ranking, h]

/-- Lines can be ranked among themselves before they are ranked among others. -/
theorem ranking_append_ranking (as lines bs : List CostLine) :
    ranking (as ++ (ranking lines ++ bs)) = ranking (as ++ (lines ++ bs)) := by
  apply ranking_congr
  intro k
  simp only [ofCost_append, ofCost_ranking]

/-! ## The top of a ranking -/

theorem Descending.append (has : Descending as) (hbs : Descending bs)
    (hbetween : ∀ a ∈ as, ∀ b ∈ bs, b.cost ≤ a.cost) : Descending (as ++ bs) :=
  List.pairwise_append.mpr ⟨has, hbs, hbetween⟩

/-- The lines that stand in front of `l` in a ranking where `as` comes before `l`, and `bs` after
it. -/
def ahead (l : CostLine) (as bs : List CostLine) : List CostLine :=
  ranking (as.filter (fun a => l.cost ≤ a.cost) ++ bs.filter fun b => l.cost < b.cost)

/-- The lines that stand behind `l` in such a ranking. -/
def beaten (l : CostLine) (as bs : List CostLine) : List CostLine :=
  ranking (as.filter (fun a => a.cost < l.cost) ++ bs.filter fun b => b.cost ≤ l.cost)

theorem le_of_mem_ahead (ha : a ∈ ahead l as bs) : l.cost ≤ a.cost := by
  have hmem := mem_ranking.mp ha
  simp only [List.mem_append, List.mem_filter, decide_eq_true_eq] at hmem
  omega

theorem le_of_mem_beaten (ha : a ∈ beaten l as bs) : a.cost ≤ l.cost := by
  have hmem := mem_ranking.mp ha
  simp only [List.mem_append, List.mem_filter, decide_eq_true_eq] at hmem
  omega

theorem ofCost_ahead (k : Int) (l : CostLine) (as bs : List CostLine) :
    ofCost k (ahead l as bs) =
      (if l.cost ≤ k then ofCost k as else []) ++ if l.cost < k then ofCost k bs else [] := by
  have has := ofCost_filter k (fun i => l.cost ≤ i) as
  have hbs := ofCost_filter k (fun i => l.cost < i) bs
  simp only [decide_eq_true_eq] at has hbs
  rw [ahead, ofCost_ranking, ofCost_append, has, hbs]

theorem ofCost_beaten (k : Int) (l : CostLine) (as bs : List CostLine) :
    ofCost k (beaten l as bs) =
      (if k < l.cost then ofCost k as else []) ++ if k ≤ l.cost then ofCost k bs else [] := by
  have has := ofCost_filter k (fun i => i < l.cost) as
  have hbs := ofCost_filter k (fun i => i ≤ l.cost) bs
  simp only [decide_eq_true_eq] at has hbs
  rw [beaten, ofCost_ranking, ofCost_append, has, hbs]

/-- Where a line stands in a ranking. -/
theorem ranking_append_cons (l : CostLine) (as bs : List CostLine) :
    ranking (as ++ l :: bs) = ahead l as bs ++ l :: beaten l as bs := by
  have hrest : Descending (l :: beaten l as bs) :=
    List.pairwise_cons.mpr ⟨fun b hb => le_of_mem_beaten hb, descending_ranking _⟩
  rw [ranking_eq_iff]
  refine ⟨(descending_ranking _).append hrest ?_, fun k => ?_⟩
  · intro a ha b hb
    exact (hrest.le_head hb).trans (le_of_mem_ahead ha)
  · rw [ofCost_append, ofCost_append, ofCost_ahead]
    rcases lt_trichotomy k l.cost with hk | rfl | hk
    · rw [ofCost_cons_of_ne hk.ne', ofCost_cons_of_ne hk.ne', ofCost_beaten]
      simp [hk, hk.le, hk.not_ge, hk.not_gt]
    · rw [ofCost_cons_self, ofCost_cons_self, ofCost_beaten]
      simp
    · rw [ofCost_cons_of_ne hk.ne, ofCost_cons_of_ne hk.ne, ofCost_beaten]
      simp [hk, hk.le, hk.not_ge, hk.not_gt]

/-- The same ranking without that line. -/
theorem ranking_append_eq (l : CostLine) (as bs : List CostLine) :
    ranking (as ++ bs) = ahead l as bs ++ beaten l as bs := by
  rw [ranking_eq_iff]
  refine ⟨(descending_ranking _).append (descending_ranking _) ?_, fun k => ?_⟩
  · intro a ha b hb
    exact (le_of_mem_beaten hb).trans (le_of_mem_ahead ha)
  · rw [ofCost_append, ofCost_append, ofCost_ahead, ofCost_beaten]
    rcases lt_trichotomy k l.cost with hk | rfl | hk
    · simp [hk, hk.le, hk.not_ge, hk.not_gt]
    · simp
    · simp [hk, hk.le, hk.not_ge, hk.not_gt]

/-- A line that costs no more than `n` lines in front of it does not reach the first `n`. -/
theorem take_ranking_of_beaten {n : Nat} {tops : List CostLine} (htops : tops.Sublist as)
    (hbeaten : ∀ t ∈ tops, l.cost ≤ t.cost) (hn : n ≤ tops.length) (bs : List CostLine) :
    (ranking (as ++ l :: bs)).take n = (ranking (as ++ bs)).take n := by
  have hlength : n ≤ (ahead l as bs).length := by
    have hfilter := htops.filter fun a => l.cost ≤ a.cost
    rw [List.filter_eq_self.mpr fun t ht => by simpa using hbeaten t ht] at hfilter
    have hlong := hfilter.length_le
    rw [ahead, ranking, List.length_mergeSort, List.length_append]
    omega
  rw [ranking_append_cons, ranking_append_eq l, List.take_append_of_le_length hlength,
    List.take_append_of_le_length hlength]

/-- Lines behind the first `m` of a ranking reach no top of at most `m` lines. -/
theorem take_ranking_take {n m : Nat} (hnm : n ≤ m) (as lines bs : List CostLine) :
    (ranking (as ++ ((ranking lines).take m ++ bs))).take n =
      (ranking (as ++ (lines ++ bs))).take n := by
  rw [← ranking_append_ranking as lines bs]
  have hsorted := descending_ranking lines
  generalize ranking lines = sorted at hsorted
  by_cases hm : sorted.length ≤ m
  · rw [List.take_of_length_le hm]
  have hlength : n ≤ (sorted.take m).length := by
    rw [List.length_take]
    omega
  have hbetween : ∀ l ∈ sorted.drop m, ∀ t ∈ sorted.take m, l.cost ≤ t.cost := by
    intro l hl t ht
    rw [Descending, ← List.take_append_drop m sorted, List.pairwise_append] at hsorted
    exact hsorted.2.2 t ht l hl
  conv_rhs => rw [← List.take_append_drop m sorted]
  generalize sorted.take m = tops at hlength hbetween
  generalize sorted.drop m = rest at hbetween
  induction rest with
  | nil => rw [List.append_nil]
  | cons l rest ih =>
    rw [ih fun l' hl' => hbetween l' (List.mem_cons_of_mem l hl')]
    have htops : tops.Sublist (as ++ tops) := List.sublist_append_right as tops
    have hdrop := take_ranking_of_beaten htops (hbetween l List.mem_cons_self) hlength (rest ++ bs)
    simpa using hdrop.symm

/-- **The top of two lists** is the top of their tops. -/
theorem take_ranking_append {n m : Nat} (hnm : n ≤ m) (as bs : List CostLine) :
    (ranking ((ranking as).take m ++ (ranking bs).take m)).take n =
      (ranking (as ++ bs)).take n := by
  have hfirst := take_ranking_take hnm [] as ((ranking bs).take m)
  have hsecond := take_ranking_take hnm as bs []
  simp only [List.nil_append, List.append_nil] at hfirst hsecond
  rw [hfirst, hsecond]

theorem take_ranking_self (n : Nat) (lines : List CostLine) :
    (ranking ((ranking lines).take n)).take n = (ranking lines).take n := by
  have h := take_ranking_take (le_refl n) [] lines []
  simpa using h

end HotPath.Report
