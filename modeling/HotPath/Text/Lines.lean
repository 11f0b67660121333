import HotPath.Text.Blank

/-!
# Lines of a text

A line ends at a line feed, a carriage return, the pair of both, or one of the other eight line
breaks below. The text after the last break is a line of its own only if it is not empty.

* `lines_append_newline`: a line feed cuts a text in two parts whose lines can be read separately.
-/

namespace HotPath.Text

/-- The characters that end a line on their own. -/
def isLineBreak (c : Char) : Bool :=
  let n := c.toNat
  (10 ≤ n && n ≤ 13) || (28 ≤ n && n ≤ 30) || n == 0x85 || n == 0x2028 || n == 0x2029

theorem isBlank_of_isLineBreak {c : Char} (h : isLineBreak c) : isBlank c := by
  simp only [isLineBreak, Bool.or_eq_true, Bool.and_eq_true, decide_eq_true_eq, beq_iff_eq] at h
  simp only [isBlank, Bool.or_eq_true, Bool.and_eq_true, decide_eq_true_eq, beq_iff_eq]
  omega

def consFirst (c : Char) : List (List Char) → List (List Char)
  | [] => [[c]]
  | l :: ls => (c :: l) :: ls

/-- The lines of a text, without their line breaks. -/
def lines : List Char → List (List Char)
  | [] => []
  | '\r' :: '\n' :: rest => [] :: lines rest
  | c :: rest => if isLineBreak c then [] :: lines rest else consFirst c (lines rest)

theorem lines_cons {c : Char} {s : List Char} (h : c ≠ '\r' ∨ s.head? ≠ some '\n') :
    lines (c :: s) = if isLineBreak c then [] :: lines s else consFirst c (lines s) := by
  rw [lines]
  rintro rest rfl rfl
  simp at h

theorem lines_crlf (s : List Char) : lines ('\r' :: '\n' :: s) = [] :: lines s := by
  rw [lines]

theorem lines_newline (s : List Char) : lines ('\n' :: s) = [] :: lines s := by
  rw [lines_cons (.inl (by decide)), if_pos (by decide)]

theorem lines_ne_nil {s : List Char} (h : s ≠ []) : lines s ≠ [] := by
  fun_cases lines s with
  | case1 => exact absurd rfl h
  | case2 => simp
  | case3 => simp
  | case4 c rest =>
    cases lines rest <;> simp [consFirst]

theorem consFirst_append (c : Char) {ls : List (List Char)} (h : ls ≠ []) (ms : List (List Char)) :
    consFirst c (ls ++ ms) = consFirst c ls ++ ms := by
  cases ls with
  | nil => exact absurd rfl h
  | cons l ls => rfl

/-- A line feed cuts a text in two parts whose lines can be read separately. -/
theorem lines_append_newline (s t : List Char) :
    lines (s ++ '\n' :: t) = lines (s ++ ['\n']) ++ lines t := by
  induction hn : s.length using Nat.strongRecOn generalizing s with
  | ind n ih =>
    match s, hn with
    | [], _ => simp [lines_newline, lines]
    | c :: s, hn =>
      by_cases h : c = '\r' ∧ s.head? = some '\n'
      · obtain ⟨rfl, h⟩ := h
        obtain ⟨s, rfl⟩ := List.head?_eq_some_iff.1 h
        simp only [List.cons_append, lines_crlf]
        rw [ih s.length (by simp only [← hn, List.length_cons]; omega) s rfl]
      · by_cases hs : s = []
        · subst hs
          by_cases hc : c = '\r'
          · subst hc
            simp [lines_crlf, lines]
          · simp only [List.cons_append, List.nil_append]
            rw [lines_cons (.inl hc), lines_cons (.inl hc), lines_newline, lines_newline]
            split <;> simp [consFirst, lines]
        · have head (u : List Char) : c ≠ '\r' ∨ (s ++ u).head? ≠ some '\n' := by
            rw [List.head?_append, Option.or_of_isSome (by simpa using hs)]
            exact Decidable.not_and_iff_not_or_not.1 h
          rw [List.cons_append, List.cons_append, lines_cons (head _), lines_cons (head _),
            ih s.length (by simp [← hn]) s rfl]
          split
          · rfl
          · exact consFirst_append c (lines_ne_nil (by simp)) _

end HotPath.Text
