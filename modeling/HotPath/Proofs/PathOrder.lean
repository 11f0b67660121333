import Mathlib
import HotPath.Path

/-!
# The order of paths

Paths are ordered name by name, and names character by character. A strict order of the items gives
a linear order of the lists (`lexLe_trans`, `lexLe_total`, `lexLe_antisymm`), which is used once for
names and once for paths.
-/

namespace HotPath.Path

/-! ## Lists of ordered items -/

section Lists

variable {α : Type} {before : α → α → Bool} {as bs cs : List α}

/-- A strict order in which any two items can be compared. -/
structure IsOrder (before : α → α → Bool) : Prop where
  irrefl : ∀ a, before a a = false
  trans : ∀ a b c, before a b = true → before b c = true → before a c = true
  connected : ∀ a b, before a b = true ∨ a = b ∨ before b a = true

theorem IsOrder.asymm (h : IsOrder before) {a b : α} (hab : before a b = true) :
    before b a = false := by
  by_contra hba
  rw [Bool.not_eq_false] at hba
  have := h.trans a b a hab hba
  rw [h.irrefl] at this
  cases this

variable [BEq α] [LawfulBEq α]

theorem lexLe_cons {a b : α} :
    lexLe before (a :: as) (b :: bs) = true ↔
      before a b = true ∨ a = b ∧ lexLe before as bs = true := by
  rw [lexLe]
  simp

theorem lexLe_total (h : IsOrder before) (as bs : List α) :
    lexLe before as bs = true ∨ lexLe before bs as = true := by
  induction as generalizing bs with
  | nil => exact .inl rfl
  | cons a as ih =>
    cases bs with
    | nil => exact .inr rfl
    | cons b bs =>
      rw [lexLe_cons, lexLe_cons]
      rcases h.connected a b with hab | rfl | hba
      · exact .inl (.inl hab)
      · rcases ih bs with hle | hle
        · exact .inl (.inr ⟨rfl, hle⟩)
        · exact .inr (.inr ⟨rfl, hle⟩)
      · exact .inr (.inl hba)

theorem lexLe_trans (h : IsOrder before) (hab : lexLe before as bs = true)
    (hbc : lexLe before bs cs = true) : lexLe before as cs = true := by
  induction as generalizing bs cs with
  | nil => rfl
  | cons a as ih =>
    cases bs with
    | nil => cases hab
    | cons b bs =>
      cases cs with
      | nil => cases hbc
      | cons c cs =>
        rw [lexLe_cons] at hab hbc ⊢
        rcases hab with hab | ⟨rfl, hab⟩
        · rcases hbc with hbc | ⟨rfl, -⟩
          · exact .inl (h.trans a b c hab hbc)
          · exact .inl hab
        · rcases hbc with hbc | ⟨rfl, hbc⟩
          · exact .inl hbc
          · exact .inr ⟨rfl, ih hab hbc⟩

theorem lexLe_antisymm (h : IsOrder before) (hab : lexLe before as bs = true)
    (hba : lexLe before bs as = true) : as = bs := by
  induction as generalizing bs with
  | nil =>
    cases bs with
    | nil => rfl
    | cons b bs => cases hba
  | cons a as ih =>
    cases bs with
    | nil => cases hab
    | cons b bs =>
      rw [lexLe_cons] at hab hba
      rcases hab with hab | ⟨rfl, hab⟩
      · rcases hba with hba | ⟨rfl, -⟩
        · rw [h.asymm hab] at hba
          cases hba
        · rw [h.irrefl] at hab
          cases hab
      · rcases hba with hba | ⟨-, hba⟩
        · rw [h.irrefl] at hba
          cases hba
        · rw [ih hab hba]

/-- What the lists start with in common decides nothing. -/
theorem lexLe_append (h : IsOrder before) (front as bs : List α) :
    lexLe before (front ++ as) (front ++ bs) = lexLe before as bs := by
  induction front with
  | nil => rfl
  | cons a front ih =>
    rw [List.cons_append, List.cons_append, lexLe, h.irrefl, beq_self_eq_true, Bool.false_or,
      Bool.true_and, ih]

end Lists

/-! ## Names and paths -/

theorem isOrder_char : IsOrder fun c d : Char => decide (c.toNat < d.toNat) := by
  constructor
  · intro c
    simp
  · intro c d e hcd hde
    simp only [decide_eq_true_eq] at hcd hde ⊢
    omega
  · intro c d
    simp only [decide_eq_true_eq]
    rcases lt_trichotomy c.toNat d.toNat with hlt | heq | hgt
    · exact .inl hlt
    · exact .inr (.inl (Char.toNat_inj.mp heq))
    · exact .inr (.inr hgt)

theorem nameBefore_iff {m n : String} :
    nameBefore m n = true ↔
      m ≠ n ∧ lexLe (fun c d => decide (c.toNat < d.toNat)) m.toList n.toList = true := by
  simp [nameBefore]

theorem isOrder_nameBefore : IsOrder nameBefore := by
  constructor
  · intro n
    simp [nameBefore]
  · intro k m n hkm hmn
    rw [nameBefore_iff] at hkm hmn ⊢
    refine ⟨?_, lexLe_trans isOrder_char hkm.2 hmn.2⟩
    rintro rfl
    exact hkm.1 (String.toList_injective (lexLe_antisymm isOrder_char hkm.2 hmn.2))
  · intro m n
    rw [nameBefore_iff, nameBefore_iff]
    by_cases heq : m = n
    · exact .inr (.inl heq)
    · rcases lexLe_total isOrder_char m.toList n.toList with hle | hle
      · exact .inl ⟨heq, hle⟩
      · exact .inr (.inr ⟨Ne.symm heq, hle⟩)

theorem lexLe_char_iff {as bs : List Char} :
    lexLe (fun c d => decide (c.toNat < d.toNat)) as bs = true ↔ ¬ bs < as := by
  induction as generalizing bs with
  | nil => exact iff_of_true rfl (List.not_lt_nil bs)
  | cons a as ih =>
    cases bs with
    | nil => exact iff_of_false nofun (not_not.mpr (List.nil_lt_cons a as))
    | cons b bs =>
      have horder : decide (a.toNat < b.toNat) = true ↔ a < b := decide_eq_true_iff
      rw [lexLe_cons, List.cons_lt_cons_iff, ih, horder]
      rcases lt_trichotomy a b with hab | rfl | hba
      · simp [hab, hab.not_gt, hab.ne']
      · simp
      · simp [hba, hba.not_gt, hba.ne']

/-- Names are in the usual order of strings. -/
theorem nameBefore_iff_lt {m n : String} : nameBefore m n = true ↔ m < n := by
  rw [nameBefore_iff, lexLe_char_iff, ← String.lt_iff_toList_lt, not_lt, lt_iff_le_and_ne, and_comm]

/-- Paths into one directory are in the order of their last names. -/
theorem le_child_iff {p : Path} {m n : String} : (p.child m).le (p.child n) = true ↔ m ≤ n := by
  have hsort (name : String) : (p.child name).sortNames = p.sortNames ++ [name] := by
    cases hroot : p.root <;> simp [sortNames, child, isAbsolute, hroot]
  rw [le, hsort, hsort, lexLe_append isOrder_nameBefore, lexLe_cons, nameBefore_iff_lt,
    le_iff_lt_or_eq]
  simp [lexLe]

theorem le_transitive (p q r : Path) (hpq : p.le q = true) (hqr : q.le r = true) : p.le r = true :=
  lexLe_trans isOrder_nameBefore hpq hqr

theorem le_connected (p q : Path) : (p.le q || q.le p) = true := by
  rw [Bool.or_eq_true]
  exact lexLe_total isOrder_nameBefore p.sortNames q.sortNames

/-- Sorting puts paths in their order. -/
theorem pairwise_mergeSort (paths : List Path) :
    (paths.mergeSort Path.le).Pairwise fun p q => p.le q = true :=
  List.pairwise_mergeSort le_transitive le_connected paths

end HotPath.Path
