import HotPath.Proofs.Report.Readers

/-!
# The reader finds the winning reading

The reader commits itself at every step: it takes the longest run of blanks, digits and commas, and
once a share is followed by columns it never looks at the line without the share again. Nothing is
lost by that: the reading that counts is the one that the readers find (`Reading.wins_iff`).
-/

namespace HotPath.Report

open Text

/-! ## Up to the cost -/

theorem exists_isMarker (s : List Char) : ∃ m, IsMarker m ∧ s = m ++ dropMarker s := by
  unfold dropMarker
  split
  · exact ⟨['<'], Or.inr (Or.inl rfl), rfl⟩
  · exact ⟨['>'], Or.inr (Or.inr rfl), rfl⟩
  · exact ⟨[], Or.inl rfl, rfl⟩

theorem IsCost.stops {s : List Char} (h : IsCost s) (t : List Char) : Stops isBlank (s ++ t) := by
  obtain ⟨d, more, rfl, hd, -⟩ := h
  exact stops_cons.mpr (isBlank_of_isDigit hd)

theorem dropMarker_append {m i c : List Char} (hm : IsMarker m) (hi : IsGap i) (hc : IsCost c)
    (t : List Char) : dropMarker (m ++ (i ++ (c ++ t))) = i ++ (c ++ t) := by
  rcases hm with rfl | rfl | rfl
  · obtain ⟨d, more, rfl, hd, -⟩ := hc
    have head : ∀ x ∈ (i ++ (d :: more ++ t)).head?, x ≠ '<' ∧ x ≠ '>' := by
      intro x hx
      cases i with
      | nil =>
        cases hx
        constructor <;> (rintro rfl; revert hd; decide)
      | cons b i =>
        cases hx
        have hb := hi x (by simp)
        constructor <;> (rintro rfl; revert hb; decide)
    rw [List.nil_append]
    unfold dropMarker
    split
    · rename_i rest heq
      rw [heq] at head
      exact absurd rfl (head '<' rfl).1
    · rename_i rest heq
      rw [heq] at head
      exact absurd rfl (head '>' rfl).2
    · rfl
  · rfl
  · rfl

theorem isCostChar_iff {c : Char} : isCostChar c = true ↔ isDigit c = true ∨ c = ',' := by
  simp [isCostChar]

theorem cost?_append {m i c t : List Char} (hm : IsMarker m) (hi : IsGap i) (hc : IsCost c)
    (ht : Stops isCostChar t) : cost? (m ++ (i ++ (c ++ t))) = some (c, t) := by
  have hdrop := dropWhile_span hi (hc.stops t)
  obtain ⟨d, more, rfl, hd, hmore⟩ := hc
  have hmore' : ∀ x ∈ more, isCostChar x = true := fun x hx => isCostChar_iff.mpr (hmore x hx)
  rw [cost?, dropMarker_append hm hi ⟨d, more, rfl, hd, hmore⟩, hdrop]
  simp [hd, takeWhile_span hmore' ht, dropWhile_span hmore' ht]

theorem exists_of_cost? {s c t : List Char} (h : cost? s = some (c, t)) :
    ∃ m i, IsMarker m ∧ IsGap i ∧ IsCost c ∧ s = m ++ (i ++ (c ++ t)) := by
  obtain ⟨m, hm, hs⟩ := exists_isMarker s
  have hgap := (List.takeWhile_append_dropWhile (p := isBlank) (l := dropMarker s)).symm
  unfold cost? at h
  split at h
  · cases h
  · rename_i d rest hrest
    split at h
    · rename_i hd
      cases h
      refine ⟨m, _, hm, all_takeWhile isBlank (dropMarker s), ⟨d, _, rfl, hd, ?_⟩, ?_⟩
      · exact fun x hx => isCostChar_iff.mp (all_takeWhile isCostChar rest x hx)
      · rw [hrest] at hgap
        rw [List.cons_append, List.takeWhile_append_dropWhile, ← hgap]
        exact hs
    · cases h

/-! ## Behind the cost -/

theorem IsBracket.stops {d : DecimalText} {s : List Char} (h : IsBracket d s) (t : List Char) :
    Stops isBlank (s ++ t) := by
  cases h with
  | mk => exact stops_cons.mpr (by decide)

theorem IsShare.eq_nil_iff {percent : Option DecimalText} {s : List Char}
    (h : IsShare percent s) : s = [] ↔ percent = none := by
  cases h with
  | missing => simp
  | given _ hne _ => simp [hne]

theorem columns?_length_ne {s r : List Char} (h : columns? s = some r) :
    (s.dropWhile isBlank).length ≠ s.length := by
  intro heq
  simp [columns?, heq] at h

theorem exists_isShare_of_share? {d : DecimalText} {s rest : List Char}
    (hlen : (s.dropWhile isBlank).length ≠ s.length)
    (h : share? (s.dropWhile isBlank) = some (d, rest)) :
    ∃ share, IsShare (some d) share ∧ s = share ++ rest := by
  have hs := (List.takeWhile_append_dropWhile (p := isBlank) (l := s)).symm
  obtain ⟨b, hb, hrest⟩ := share?_eq_some_iff.mp h
  refine ⟨s.takeWhile isBlank ++ b, .given (all_takeWhile isBlank s) ?_ hb, ?_⟩
  · intro hnil
    rw [hnil, List.nil_append] at hs
    exact hlen (congrArg List.length hs.symm)
  · rw [List.append_assoc, ← hrest]
    exact hs

theorem afterCost?_of_share {d : DecimalText} {share t columns : List Char}
    (hs : IsShare (some d) share) (ht : columns? t = some columns) :
    afterCost? (share ++ t) = some (some d, columns) := by
  cases hs with
  | @given b s _ hb hne hs =>
    have hdrop := dropWhile_span hb (hs.stops t)
    have hread : share? (s ++ t) = some (d, t) := share?_eq_some_iff.mpr ⟨s, hs, rfl⟩
    have hlen : (s ++ t).length ≠ (b ++ s ++ t).length := by
      have := List.length_pos_iff.mpr hne
      simp only [List.length_append]
      omega
    rw [List.append_assoc] at hlen ⊢
    simp only [afterCost?, hdrop, if_neg hlen, hread, ht]

/-- The text `s` starts with a share that columns follow. -/
def HasShare (s : List Char) : Prop :=
  ∃ d share t columns, IsShare (some d) share ∧ columns? t = some columns ∧ s = share ++ t

theorem afterCost?_of_not_hasShare {s columns : List Char} (hs : ¬ HasShare s)
    (h : columns? s = some columns) : afterCost? s = some (none, columns) := by
  have hlen := columns?_length_ne h
  unfold afterCost?
  dsimp only
  rw [if_neg hlen, h]
  split
  · rename_i d rest hshare
    split
    · rename_i c hc
      obtain ⟨share, hd, heq⟩ := exists_isShare_of_share? hlen hshare
      exact absurd ⟨d, share, rest, c, hd, hc, heq⟩ hs
    · rfl
  · rfl

theorem exists_of_afterCost? {s columns : List Char} {percent : Option DecimalText}
    (h : afterCost? s = some (percent, columns)) :
    ∃ share t, IsShare percent share ∧ columns? t = some columns ∧ s = share ++ t := by
  have plain (h : (columns? s).map (none, ·) = some (percent, columns)) :
      ∃ share t, IsShare percent share ∧ columns? t = some columns ∧ s = share ++ t := by
    obtain ⟨c, hc, heq⟩ := Option.map_eq_some_iff.mp h
    cases heq
    exact ⟨[], s, .missing, hc, rfl⟩
  unfold afterCost? at h
  dsimp only at h
  split at h
  · cases h
  · rename_i hlen
    split at h
    · rename_i d rest hshare
      split at h
      · rename_i c hc
        cases h
        obtain ⟨share, hd, heq⟩ := exists_isShare_of_share? hlen hshare
        exact ⟨share, rest, hd, hc, heq⟩
      · exact plain h
    · exact plain h

/-- A share counts if columns follow it. Without such a share the columns start right behind the
cost. -/
theorem afterCost?_eq_some_iff {s columns : List Char} {percent : Option DecimalText} :
    afterCost? s = some (percent, columns) ↔
      (∃ share t, IsShare percent share ∧ columns? t = some columns ∧ s = share ++ t) ∧
        (percent = none → ¬ HasShare s) := by
  constructor
  · intro h
    refine ⟨exists_of_afterCost? h, ?_⟩
    rintro rfl ⟨d, share, t, columns', hs, ht, rfl⟩
    rw [afterCost?_of_share hs ht] at h
    cases h
  · rintro ⟨⟨share, t, hs, ht, rfl⟩, hnone⟩
    cases percent with
    | some d => exact afterCost?_of_share hs ht
    | none =>
      rw [hs.eq_nil_iff.mpr rfl, List.nil_append] at hnone ⊢
      exact afterCost?_of_not_hasShare (hnone rfl) ht

/-! ## Whole lines -/

namespace Reading

variable {r r' : Reading} {s : List Char}

theorem WellFormed.stops_rest (h : r.WellFormed) : Stops isCostChar r.rest := by
  have head (b t : List Char) (hb : IsGap b) (hne : b ≠ []) : Stops isCostChar (b ++ t) := by
    obtain ⟨c, b, rfl⟩ := List.exists_cons_of_ne_nil hne
    exact stops_cons.mpr (isCostChar_of_isBlank (hb c (by simp)))
  obtain ⟨-, -, -, hshare, hgap, hne, -, -⟩ := h
  unfold rest
  generalize r.percent = percent at hshare
  generalize r.share = share at hshare
  cases hshare with
  | missing => exact head r.gap (r.columns ++ r.ending) hgap hne
  | given hb hbne _ =>
    rw [List.append_assoc]
    exact head _ _ hb hbne

theorem Of.cost?_eq (h : r.Of s) : cost? s = some (r.cost, r.rest) := by
  obtain ⟨hw, rfl⟩ := h
  exact cost?_append hw.marker hw.indent hw.cost hw.stops_rest

theorem WellFormed.columns?_eq (h : r.WellFormed) :
    columns? (r.gap ++ (r.columns ++ r.ending)) = some r.columns :=
  columns?_eq_some_iff.mpr ⟨_, _, h.gap, h.gap_ne_nil, h.columns, h.ending, rfl⟩

/-- Every cut that the readers make is a reading. -/
theorem exists_of {cost rest share t columns : List Char} {percent : Option DecimalText}
    (hcost : cost? s = some (cost, rest)) (hshare : IsShare percent share)
    (hcolumns : columns? t = some columns) (hrest : rest = share ++ t) :
    ∃ r : Reading, r.Of s ∧ r.cost = cost ∧ r.percent = percent ∧ r.share = share ∧
      r.columns = columns := by
  obtain ⟨m, i, hm, hi, hc, hs⟩ := exists_of_cost? hcost
  obtain ⟨g, z, hg, hne, hcol, hz, ht⟩ := columns?_eq_some_iff.mp hcolumns
  refine ⟨⟨m, i, cost, share, percent, g, columns, z⟩,
    ⟨⟨hm, hi, hc, hshare, hg, hne, hcol, hz⟩, ?_⟩, rfl, rfl, rfl, rfl⟩
  rw [hs, hrest, ht]
  rfl

/-- The reading that counts is the one that the readers find. -/
theorem wins_iff : r.Wins s ↔ r.Of s ∧ afterCost? r.rest = some (r.percent, r.columns) := by
  constructor
  · rintro ⟨hr, hmax⟩
    refine ⟨hr, afterCost?_eq_some_iff.mpr
      ⟨⟨r.share, _, hr.1.share, hr.1.columns?_eq, rfl⟩, ?_⟩⟩
    rintro hnone ⟨d, share, t, columns, hs, ht, heq⟩
    obtain ⟨r', hr', -, -, hshare', -⟩ := exists_of hr.cost?_eq hs ht heq
    have hnil := hmax (hr.1.share.eq_nil_iff.mpr hnone) r' hr'
    rw [hshare'] at hnil
    cases hs.eq_nil_iff.mp hnil
  · rintro ⟨hr, hafter⟩
    refine ⟨hr, fun hnil r' hr' => ?_⟩
    have hnot := (afterCost?_eq_some_iff.mp hafter).2 (hr.1.share.eq_nil_iff.mp hnil)
    by_contra hne
    obtain ⟨d, hd⟩ : ∃ d, r'.percent = some d :=
      Option.ne_none_iff_exists'.mp fun h => hne (hr'.1.share.eq_nil_iff.mpr h)
    have hrest : r'.rest = r.rest := by
      have heq := hr'.cost?_eq.symm.trans hr.cost?_eq
      simp only [Option.some.injEq, Prod.mk.injEq] at heq
      exact heq.2
    refine hnot ⟨d, r'.share, _, r'.columns, ?_, hr'.1.columns?_eq, hrest.symm⟩
    rw [← hd]
    exact hr'.1.share

end Reading

end HotPath.Report
