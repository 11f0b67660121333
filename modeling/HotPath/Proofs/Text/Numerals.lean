import Mathlib
import HotPath.Text.Digit

/-!
# Numerals

The numeral of a natural number consists of ASCII digits and reads back as the number
(`natOfDigits_digitsOfNat`). No numeral of the same number is shorter, whatever digits it is made of
(`length_digitsOfNat_natOfDigits_le`).
-/

namespace HotPath.Text

theorem digitValue?_of_isDigit {c : Char} (h : c.isDigit = true) :
    digitValue? c = some (c.toNat - '0'.toNat) := by
  have hrange := Char.isDigit_iff_toNat.mp h
  exact digitValue?_ascii hrange.1 hrange.2

/-- No digit is a comma. -/
theorem filter_comma_of_isDigit {ds : List Char} (h : ∀ c ∈ ds, isDigit c = true) :
    ds.filter (· ≠ ',') = ds := by
  refine List.filter_eq_self.mpr fun c hc => ?_
  have hdigit := h c hc
  rw [decide_eq_true_eq]
  rintro rfl
  revert hdigit
  decide

theorem isDigit_of_mem_digitsOfNat {n : Nat} {c : Char} (h : c ∈ digitsOfNat n) :
    isDigit c = true := by
  have hc := Nat.isDigit_of_mem_toDigits (by decide) (by decide) h
  simp [isDigit, digitValue?_of_isDigit hc]

theorem digitsOfNat_ne_nil (n : Nat) : digitsOfNat n ≠ [] := Nat.toDigits_ne_nil

/-- On ASCII digits the value of a numeral is the one that the standard library gives. -/
theorem natOfDigits_eq_ofDigitChars {ds : List Char} (h : ∀ c ∈ ds, c.isDigit = true) :
    natOfDigits ds = Nat.ofDigitChars 10 ds 0 := by
  have fold (n : Nat) : ds.foldl (fun n d => 10 * n + (digitValue? d).getD 0) n =
      ds.foldl (fun n d => 10 * n + (d.toNat - '0'.toNat)) n := by
    induction ds generalizing n with
    | nil => rfl
    | cons d ds ih =>
      rw [List.foldl_cons, List.foldl_cons, ih fun c hc => h c (List.mem_cons_of_mem d hc),
        digitValue?_of_isDigit (h d List.mem_cons_self), Option.getD_some]
  rw [natOfDigits, Nat.ofDigitChars_eq_foldl, fold]

/-- The numeral of a number reads back as the number. -/
theorem natOfDigits_digitsOfNat (n : Nat) : natOfDigits (digitsOfNat n) = n := by
  have hdigits : ∀ c ∈ digitsOfNat n, c.isDigit = true := fun c hc =>
    Nat.isDigit_of_mem_toDigits (by decide) (by decide) hc
  rw [natOfDigits_eq_ofDigitChars hdigits, digitsOfNat, Nat.ofDigitChars_ten_toDigits]

theorem getD_digitValue?_lt (c : Char) : (digitValue? c).getD 0 < 10 := by
  cases h : digitValue? c with
  | none => decide
  | some v =>
    obtain ⟨z, hz, rfl⟩ := Option.map_eq_some_iff.mp h
    have hrange := List.find?_some hz
    simp only [Bool.and_eq_true, decide_eq_true_eq] at hrange
    rw [Option.getD_some]
    omega

/-- `k` digits stand for a number below the `k`-th power of ten. -/
theorem natOfDigits_lt (ds : List Char) : natOfDigits ds < 10 ^ ds.length := by
  induction ds with
  | nil => decide
  | cons d ds ih =>
    have hd := getD_digitValue?_lt d
    have hcut : natOfDigits (d :: ds) =
        (digitValue? d).getD 0 * 10 ^ ds.length + natOfDigits ds := by
      simpa [natOfDigits] using natOfDigits_append [d] ds
    calc natOfDigits (d :: ds)
        < ((digitValue? d).getD 0 + 1) * 10 ^ ds.length := by rw [hcut, Nat.succ_mul]; omega
      _ ≤ 10 * 10 ^ ds.length := Nat.mul_le_mul_right _ hd
      _ = 10 ^ (d :: ds).length := by rw [List.length_cons, pow_succ']

/-- Leading zeros and digits of other scripts make no numeral shorter than the one that is
written. -/
theorem length_digitsOfNat_natOfDigits_le {ds : List Char} (hne : ds ≠ []) :
    (digitsOfNat (natOfDigits ds)).length ≤ ds.length :=
  Nat.toDigits_length 10 _ _ (List.length_pos_iff.mpr hne) (natOfDigits_lt ds)

end HotPath.Text
