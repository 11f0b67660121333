import HotPath.Proofs.Text.Numerals
import HotPath.Text.Grouped

/-!
# Digits in groups of three

A grouped numeral is made from its lowest digit upwards. Read from the front, it is a group of at
most three digits and then groups of exactly three, each behind a comma (`IsGrouping`); nothing else
is (`isGrouping_iff`). Without its commas it is the numeral again, so it reads as the number that
was written (`ungroup_groupedNat`). It is what is written of a number that does not have too many
digits (`writeGrouped?_natCast`).
-/

namespace HotPath.Text

/-- The text `s` shows the digits `ds` in groups of three, with commas between the groups. Only the
first group may be shorter. -/
inductive IsGrouping : List Char → List Char → Prop where
  | single {g : List Char} : g ≠ [] → g.length ≤ 3 → IsGrouping g g
  | append {ds s g : List Char} :
      IsGrouping ds s → g.length = 3 → IsGrouping (ds ++ g) (s ++ ',' :: g)

namespace IsGrouping

variable {ds s : List Char}

theorem ne_nil (h : IsGrouping ds s) : ds ≠ [] := by
  cases h with
  | single hne _ => exact hne
  | append _ hg =>
    intro hnil
    rw [(List.append_eq_nil_iff.mp hnil).2] at hg
    cases hg

theorem mem (h : IsGrouping ds s) {c : Char} (hc : c ∈ s) : c = ',' ∨ c ∈ ds := by
  induction h with
  | single _ _ => exact .inr hc
  | append _ _ ih =>
    simp only [List.mem_append, List.mem_cons] at hc ⊢
    tauto

/-- Without its commas the text is the numeral again. -/
theorem filter_comma (h : IsGrouping ds s) (hds : ∀ c ∈ ds, isDigit c = true) :
    s.filter (· ≠ ',') = ds := by
  induction h with
  | single _ _ => exact filter_comma_of_isDigit hds
  | append _ _ ih =>
    obtain ⟨hhigher, hg⟩ := List.forall_mem_append.mp hds
    rw [List.filter_append, List.filter_cons_of_neg (by simp), ih hhigher,
      filter_comma_of_isDigit hg]

end IsGrouping

/-! ## Grouping from the lowest digit -/

theorem groupFromLowest_of_length_le {ds : List Char} (h : ds.length ≤ 3) :
    groupFromLowest ds = ds := by
  unfold groupFromLowest
  split
  · simp only [List.length_cons] at h
    omega
  · rfl

theorem isGrouping_groupFromLowest {ds : List Char} (hne : ds ≠ []) :
    IsGrouping ds.reverse (groupFromLowest ds).reverse := by
  fun_induction groupFromLowest ds with
  | case1 a b c d rest ih =>
    have hhigher := ih (by simp)
    simpa using hhigher.append (g := [c, b, a]) rfl
  | case2 ds hshort =>
    refine .single (by simpa using hne) ?_
    rw [List.length_reverse]
    match ds, hshort with
    | [], _ | [_], _ | [_, _], _ | [_, _, _], _ => simp
    | a :: b :: c :: d :: rest, hshort => exact absurd rfl (hshort a b c d rest)

theorem IsGrouping.eq_groupFromLowest {ds s : List Char} (h : IsGrouping ds s) :
    s = (groupFromLowest ds.reverse).reverse := by
  induction h with
  | single _ hshort =>
    rw [groupFromLowest_of_length_le (by simpa using hshort), List.reverse_reverse]
  | @append ds s g hhigher hg ih =>
    obtain ⟨d, rest, hds⟩ := List.exists_cons_of_ne_nil (List.reverse_ne_nil_iff.mpr hhigher.ne_nil)
    obtain ⟨a, b, c, rfl⟩ := List.length_eq_three.mp hg
    rw [ih, hds]
    simp [hds, groupFromLowest]

/-- The digits of a number have just one text in groups of three, the one that is written. -/
theorem isGrouping_iff {n : Nat} {s : List Char} :
    IsGrouping (digitsOfNat n) s ↔ s = groupedNat n := by
  constructor
  · exact IsGrouping.eq_groupFromLowest
  · rintro rfl
    have hne := List.reverse_ne_nil_iff.mpr (digitsOfNat_ne_nil n)
    simpa [groupedNat] using isGrouping_groupFromLowest hne

theorem isGrouping_groupedNat (n : Nat) : IsGrouping (digitsOfNat n) (groupedNat n) :=
  isGrouping_iff.mpr rfl

/-! ## Reading what is written -/

theorem filter_groupedNat (n : Nat) : (groupedNat n).filter (· ≠ ',') = digitsOfNat n :=
  (isGrouping_groupedNat n).filter_comma fun _ => isDigit_of_mem_digitsOfNat

/-- A grouped numeral reads as the number that was written. -/
theorem ungroup_groupedNat (n : Nat) : ungroup (groupedNat n) = n := by
  have hfilter : (groupedNat n).filter (· != ',') = (groupedNat n).filter (· ≠ ',') :=
    List.filter_congr fun c _ => by rw [bne, beq_eq_decide, decide_not]
  rw [ungroup, hfilter, filter_groupedNat, natOfDigits_digitsOfNat]

/-! ## The limit on digits -/

theorem isBeyondLimit_natCast {n : Nat} (h : (digitsOfNat n).length ≤ maxDigits) :
    isBeyondLimit n = false := by
  rw [isBeyondLimit, Int.natAbs_natCast]
  exact decide_eq_false (Nat.not_lt_of_le h)

theorem writeGrouped?_of_within {n : Int} (h : isBeyondLimit n = false) :
    writeGrouped? n = some (grouped n) := by
  rw [writeGrouped?, h]
  rfl

theorem writeGrouped?_natCast {n : Nat} (h : (digitsOfNat n).length ≤ maxDigits) :
    writeGrouped? n = some (groupedNat n) := writeGrouped?_of_within (isBeyondLimit_natCast h)

end HotPath.Text
