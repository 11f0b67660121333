import HotPath.Proofs.Report.Grammar

/-!
# The readers of a cost line

Each reader finds a part of a line at the front of its input and gives what is left. It is compared
with the part of the grammar that it reads: it succeeds exactly when the input starts with such a
part, and the part is then the only one (`percentage?_eq_some_iff` up to `columns?_eq_some_iff`).
-/

namespace HotPath.Report

open Text

/-! ## The share -/

theorem percentage?_of_percent {w : List Char} (hw : IsNumeral w) (rest : List Char) :
    percentage? (w ++ '%' :: rest) = some (⟨w, []⟩, rest) := by
  have hstop : Stops isDigit ('%' :: rest) := stops_cons.mpr (by decide)
  simp only [percentage?, takeWhile_span hw.2 hstop, dropWhile_span hw.2 hstop, if_neg hw.1]

theorem percentage?_of_point {w f : List Char} (hw : IsNumeral w) (hf : IsNumeral f)
    (rest : List Char) :
    percentage? (w ++ '.' :: (f ++ '%' :: rest)) = some (⟨w, f⟩, rest) := by
  have hstop : Stops isDigit ('.' :: (f ++ '%' :: rest)) := stops_cons.mpr (by decide)
  have hstop' : Stops isDigit ('%' :: rest) := stops_cons.mpr (by decide)
  obtain ⟨d, f, rfl⟩ := List.exists_cons_of_ne_nil hf.1
  simp only [percentage?, takeWhile_span hw.2 hstop, dropWhile_span hw.2 hstop, if_neg hw.1,
    takeWhile_span hf.2 hstop', dropWhile_span hf.2 hstop']

theorem percentage?_eq_some_iff {s rest : List Char} {d : DecimalText} :
    percentage? s = some (d, rest) ↔ ∃ p, IsPercentage d p ∧ s = p ++ rest := by
  constructor
  · intro h
    have hs := (List.takeWhile_append_dropWhile (p := isDigit) (l := s)).symm
    unfold percentage? at h
    dsimp only at h
    split at h
    · cases h
    · rename_i hw
      have hnum : IsNumeral (s.takeWhile isDigit) := ⟨hw, all_takeWhile isDigit s⟩
      split at h
      · rename_i rest' hrest
        cases h
        refine ⟨_, .whole hnum, ?_⟩
        rw [hrest] at hs
        simpa using hs
      · rename_i more hmore
        have hm := (List.takeWhile_append_dropWhile (p := isDigit) (l := more)).symm
        split at h
        · rename_i c f rest' hf hrest
          cases h
          have hfnum : IsNumeral (more.takeWhile isDigit) :=
            ⟨by rw [hf]; simp, all_takeWhile isDigit more⟩
          refine ⟨_, .fraction hnum hfnum, ?_⟩
          rw [hrest] at hm
          rw [hmore, hm] at hs
          simpa using hs
        · cases h
      · cases h
  · rintro ⟨p, hp, rfl⟩
    cases hp with
    | whole hw => simpa using percentage?_of_percent hw rest
    | fraction hw hf => simpa using percentage?_of_point hw hf rest

theorem IsPercentage.stops_isBlank {d : DecimalText} {p : List Char} (h : IsPercentage d p)
    (t : List Char) : Stops isBlank (p ++ t) := by
  have head (w u : List Char) (hw : IsNumeral w) : Stops isBlank (w ++ u) := by
    obtain ⟨c, w, rfl⟩ := List.exists_cons_of_ne_nil hw.1
    exact stops_cons.mpr (isBlank_of_isDigit (hw.2 c (by simp)))
  cases h with
  | whole hw => simpa using head _ ('%' :: t) hw
  | fraction hw _ => simpa using head _ _ hw

theorem shareEnd?_eq_some_iff {s rest : List Char} :
    shareEnd? s = some rest ↔ ∃ e, IsShareEnd e ∧ s = e ++ rest := by
  constructor
  · intro h
    unfold shareEnd? at h
    split at h
    · cases h
      exact ⟨_, .closing, rfl⟩
    · rename_i more
      split at h
      · rename_i d rest' hread
        cases h
        obtain ⟨p, hp, hrest⟩ := percentage?_eq_some_iff.mp hread
        refine ⟨_, .cumulative (all_takeWhile isBlank more) hp, ?_⟩
        have hmore := (List.takeWhile_append_dropWhile (p := isBlank) (l := more)).symm
        rw [hrest] at hmore
        simpa using hmore
      · cases h
    · cases h
  · rintro ⟨e, he, rfl⟩
    cases he with
    | closing => rfl
    | @cumulative i p d hi hp =>
      have hstop := hp.stops_isBlank (')' :: rest)
      have hread : percentage? (p ++ ')' :: rest) = some (d, ')' :: rest) :=
        percentage?_eq_some_iff.mpr ⟨p, hp, rfl⟩
      have hdrop := dropWhile_span hi hstop
      simp [shareEnd?, hdrop, hread]

theorem share?_eq_some_iff {s rest : List Char} {d : DecimalText} :
    share? s = some (d, rest) ↔ ∃ b, IsBracket d b ∧ s = b ++ rest := by
  constructor
  · intro h
    unfold share? at h
    split at h
    · rename_i inside
      split at h
      · rename_i d' more hread
        obtain ⟨rest', hend, heq⟩ := Option.map_eq_some_iff.mp h
        cases heq
        obtain ⟨p, hp, hrest⟩ := percentage?_eq_some_iff.mp hread
        obtain ⟨e, he, hmore⟩ := shareEnd?_eq_some_iff.mp hend
        refine ⟨_, .mk (all_takeWhile isBlank inside) hp he, ?_⟩
        have hs := (List.takeWhile_append_dropWhile (p := isBlank) (l := inside)).symm
        rw [hrest, hmore] at hs
        simpa using hs
      · cases h
    · cases h
  · rintro ⟨b, hb, rfl⟩
    cases hb with
    | @mk i p e d hi hp he =>
      have hstop := hp.stops_isBlank (e ++ rest)
      have hread : percentage? (p ++ (e ++ rest)) = some (d, e ++ rest) :=
        percentage?_eq_some_iff.mpr ⟨p, hp, rfl⟩
      have hend : shareEnd? (e ++ rest) = some rest := shareEnd?_eq_some_iff.mpr ⟨e, he, rfl⟩
      have hdrop := dropWhile_span hi hstop
      simp [share?, hdrop, hread, hend]

/-! ## The columns -/

theorem IsColumns.stops {s : List Char} (h : IsColumns s) (t : List Char) :
    Stops isBlank (s ++ t) := by
  obtain ⟨c, s, rfl⟩ := List.exists_cons_of_ne_nil h.1
  exact stops_cons.mpr (stops_cons.mp h.2.1)

theorem IsColumns.not_newline {s : List Char} (h : IsColumns s) :
    ∀ c ∈ s, decide (c ≠ '\n') = true := by
  intro c hc
  rw [decide_eq_true_eq]
  rintro rfl
  exact h.2.2 hc

theorem IsEnding.stops {z : List Char} (h : IsEnding z) :
    Stops (fun c => decide (c ≠ '\n')) z := by
  rcases h with rfl | rfl
  · exact stops_nil _
  · exact stops_cons.mpr (by decide)

theorem isEnding_of_stops {z : List Char} (h : Stops (fun c => decide (c ≠ '\n')) z)
    (hlen : z.length ≤ 1) : IsEnding z := by
  match z, hlen with
  | [], _ => exact Or.inl rfl
  | [c], _ =>
    have hc := stops_cons.mp h
    simp only [ne_eq, decide_not, Bool.not_eq_false', decide_eq_true_eq] at hc
    exact Or.inr (by rw [hc])

theorem columns?_eq_some_iff {s r : List Char} :
    columns? s = some r ↔
      ∃ g z, IsGap g ∧ g ≠ [] ∧ IsColumns r ∧ IsEnding z ∧ s = g ++ (r ++ z) := by
  constructor
  · intro h
    have hs := (List.takeWhile_append_dropWhile (p := isBlank) (l := s)).symm
    have hbody := (List.takeWhile_append_dropWhile (p := (· ≠ '\n'))
      (l := s.dropWhile isBlank)).symm
    unfold columns? at h
    dsimp only at h
    split at h
    · cases h
    · rename_i hne
      simp only [Bool.or_eq_true, decide_eq_true_eq, not_or] at hne
      split at h
      · rename_i hshort
        cases h
        refine ⟨s.takeWhile isBlank, _, all_takeWhile isBlank s, ?_, ⟨hne.2, ?_, ?_⟩, ?_,
          by rw [← hbody]; exact hs⟩
        · intro hg
          rw [hg] at hs
          exact hne.1 (congrArg List.length hs.symm)
        · intro c hc
          refine stops_dropWhile isBlank s c ?_
          rw [hbody, List.head?_append, Option.mem_def.mp hc]
          rfl
        · intro hmem
          simpa using all_takeWhile _ _ _ hmem
        · have hdrop : (s.dropWhile isBlank).drop
              ((s.dropWhile isBlank).takeWhile (· ≠ '\n')).length
              = (s.dropWhile isBlank).dropWhile (· ≠ '\n') := by
            conv_lhs => rw [hbody]
            rw [takeWhile_span (all_takeWhile _ _) (stops_dropWhile _ _), List.drop_left]
          rw [hdrop] at hshort
          exact isEnding_of_stops (stops_dropWhile _ _) hshort
      · cases h
  · rintro ⟨g, z, hg, hne, hr, hz, rfl⟩
    have hdrop := dropWhile_span hg (hr.stops z)
    have htake := takeWhile_span hr.not_newline hz.stops
    have hlen : (r ++ z).length ≠ (g ++ (r ++ z)).length := by
      have := List.length_pos_iff.mpr hne
      simp only [List.length_append]
      omega
    have hshort : z.length ≤ 1 := by rcases hz with rfl | rfl <;> simp
    simp only [columns?, hdrop, htake, List.drop_left, if_pos hshort, decide_eq_false hlen,
      decide_eq_false hr.1, Bool.or_self, Bool.false_eq_true, if_false]

end HotPath.Report
