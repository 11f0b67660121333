import HotPath.Proofs.Text.Span
import HotPath.Text.Lines

/-!
# Words and lines

What the words of a text are made of (`not_isBlank_of_mem_words`, `mem_of_mem_words`), how blanks
part them (`words_append_gap`), and that no line holds a line break
(`not_isLineBreak_of_mem_lines`). A text without blanks is a single word, and a text without line
breaks a single line; behind a line feed the lines start afresh (`lines_append_lf`). Without the
blanks at its end a text has the same words (`words_trimRight`), and what is left without the blanks
around it is determined by having no blank at its ends (`trim_eq_iff`).
-/

namespace HotPath.Text

/-! ## Words -/

/-- No word is empty; every character of a word is in the text, and none is blank. -/
theorem mem_words_subset {s w : List Char} (hw : w ∈ words s) :
    w ≠ [] ∧ ∀ c ∈ w, c ∈ s ∧ isBlank c = false := by
  have later {a : Char} {s w : List Char} (h : w ≠ [] ∧ ∀ c ∈ w, c ∈ s ∧ isBlank c = false) :
      w ≠ [] ∧ ∀ c ∈ w, c ∈ a :: s ∧ isBlank c = false :=
    ⟨h.1, fun c hc => ⟨List.mem_cons_of_mem a (h.2 c hc).1, (h.2 c hc).2⟩⟩
  fun_induction words s generalizing w with
  | case1 => cases hw
  | case2 a s _ ih => exact later (ih hw)
  | case3 a ha =>
    rw [List.mem_singleton.mp hw]
    simpa using ha
  | case4 a ha d s _ ih =>
    rcases List.mem_cons.mp hw with rfl | hw
    · simpa using ha
    · exact later (ih hw)
  | case5 a ha d s _ ih =>
    cases hwords : words (d :: s) with
    | nil => simp [hwords] at hw
    | cons v vs =>
      rw [hwords] at ih hw
      rw [List.modifyHead_cons] at hw
      rcases List.mem_cons.mp hw with rfl | hw
      · have hv := later (a := a) (ih List.mem_cons_self)
        exact ⟨by simp, List.forall_mem_cons.mpr ⟨⟨List.mem_cons_self, by simpa using ha⟩, hv.2⟩⟩
      · exact later (ih (List.mem_cons_of_mem v hw))

theorem ne_nil_of_mem_words {s w : List Char} (hw : w ∈ words s) : w ≠ [] :=
  (mem_words_subset hw).1

theorem not_isBlank_of_mem_words {s w : List Char} (hw : w ∈ words s) :
    ∀ c ∈ w, isBlank c = false := fun c hc => ((mem_words_subset hw).2 c hc).2

theorem mem_of_mem_words {s w : List Char} (hw : w ∈ words s) : ∀ c ∈ w, c ∈ s :=
  fun c hc => ((mem_words_subset hw).2 c hc).1

theorem words_eq_singleton {w : List Char} (hne : w ≠ []) (hw : ∀ c ∈ w, isBlank c = false) :
    words w = [w] := by
  induction w with
  | nil => exact absurd rfl hne
  | cons a w ih =>
    have ha := hw a List.mem_cons_self
    cases w with
    | nil => simp [words, ha]
    | cons d w =>
      have htail := ih (by simp) fun c hc => hw c (List.mem_cons_of_mem a hc)
      have hd := hw d (by simp)
      rw [words]
      simp [ha, hd, htail]

theorem words_gap_append {g : List Char} (hg : ∀ c ∈ g, isBlank c = true) (t : List Char) :
    words (g ++ t) = words t := by
  induction g with
  | nil => rfl
  | cons b g ih =>
    rw [List.cons_append, words_cons_blank (hg b List.mem_cons_self),
      ih fun c hc => hg c (List.mem_cons_of_mem b hc)]

theorem words_append_gap (s : List Char) {g : List Char} (hne : g ≠ [])
    (hg : ∀ c ∈ g, isBlank c = true) (t : List Char) :
    words (s ++ (g ++ t)) = words s ++ words t := by
  obtain ⟨b, g, rfl⟩ := List.exists_cons_of_ne_nil hne
  rw [List.cons_append, words_append_blank s (g ++ t) (hg b List.mem_cons_self),
    words_gap_append fun c hc => hg c (List.mem_cons_of_mem b hc)]

/-! ## Lines -/

theorem not_isLineBreak_of_mem_lines {s l : List Char} (hl : l ∈ lines s) :
    ∀ c ∈ l, isLineBreak c = false := by
  fun_induction lines s generalizing l with
  | case1 => cases hl
  | case2 rest ih =>
    rcases List.mem_cons.mp hl with rfl | hl
    · simp
    · exact ih hl
  | case3 c rest _ hc ih =>
    rcases List.mem_cons.mp hl with rfl | hl
    · simp
    · exact ih hl
  | case4 c rest _ hc ih =>
    cases hrest : lines rest with
    | nil =>
      rw [hrest, consFirst, List.mem_singleton] at hl
      simpa [hl] using hc
    | cons first later =>
      rw [hrest] at ih hl
      rcases List.mem_cons.mp hl with rfl | hl
      · intro x hx
        rcases List.mem_cons.mp hx with rfl | hx
        · simpa using hc
        · exact ih List.mem_cons_self x hx
      · exact ih (List.mem_cons_of_mem first hl)

theorem lines_eq_singleton {s : List Char} (hne : s ≠ []) (hs : ∀ c ∈ s, isLineBreak c = false) :
    lines s = [s] := by
  induction s with
  | nil => exact absurd rfl hne
  | cons c s ih =>
    have hc := hs c List.mem_cons_self
    have hcr : c ≠ '\r' := by
      rintro rfl
      revert hc
      decide
    rw [lines_cons (.inl hcr), if_neg (by simp [hc])]
    by_cases hnil : s = []
    · subst hnil
      rfl
    · rw [ih hnil fun x hx => hs x (List.mem_cons_of_mem c hx)]
      rfl

theorem lines_line {s : List Char} (hs : ∀ c ∈ s, isLineBreak c = false) :
    lines (s ++ ['\n']) = [s] := by
  induction s with
  | nil => rfl
  | cons c s ih =>
    have hc := hs c List.mem_cons_self
    have hcr : c ≠ '\r' := by
      rintro rfl
      revert hc
      decide
    rw [List.cons_append, lines_cons (.inl hcr), if_neg (by simp [hc]),
      ih fun x hx => hs x (List.mem_cons_of_mem c hx)]
    rfl

/-- Texts without line breaks, each with a line feed behind it, are lines. -/
theorem lines_flatMap_lf {ls : List (List Char)} (h : ∀ l ∈ ls, ∀ c ∈ l, isLineBreak c = false) :
    lines (ls.flatMap (· ++ ['\n'])) = ls := by
  induction ls with
  | nil => rfl
  | cons l ls ih =>
    rw [List.flatMap_cons, List.append_assoc, List.singleton_append, lines_append_newline,
      lines_line (h l List.mem_cons_self), ih fun l' hl' => h l' (List.mem_cons_of_mem l hl')]
    rfl

/-- Texts that are not empty and have no line breaks, with a line feed between any two, are
lines. -/
theorem lines_intercalate_lf {ls : List (List Char)} (hne : ∀ l ∈ ls, l ≠ [])
    (h : ∀ l ∈ ls, ∀ c ∈ l, isLineBreak c = false) : lines (['\n'].intercalate ls) = ls := by
  induction ls with
  | nil => rfl
  | cons l ls ih =>
    have hrest := ih (fun l' hl' => hne l' (List.mem_cons_of_mem l hl'))
      fun l' hl' => h l' (List.mem_cons_of_mem l hl')
    cases ls with
    | nil =>
      rw [List.intercalate_singleton]
      exact lines_eq_singleton (hne l List.mem_cons_self) (h l List.mem_cons_self)
    | cons l' ls =>
      rw [List.intercalate_cons_cons, List.append_assoc, List.singleton_append,
        lines_append_newline, lines_line (h l List.mem_cons_self), hrest]
      rfl

/-- A line feed at the end of a text ends its last line, or makes an empty one. -/
theorem lines_append_lf (s : List Char) :
    lines (s ++ ['\n']) = lines s ∨ lines (s ++ ['\n']) = lines s ++ [[]] := by
  fun_induction lines s with
  | case1 => exact .inr rfl
  | case2 rest ih =>
    rw [List.cons_append, List.cons_append, lines_crlf]
    rcases ih with h | h
    · exact .inl (congrArg _ h)
    · exact .inr (congrArg _ h)
  | case3 c rest hnot hc ih =>
    by_cases hlast : c = '\r' ∧ rest = []
    · obtain ⟨rfl, rfl⟩ := hlast
      exact .inl rfl
    · have hhead : c ≠ '\r' ∨ (rest ++ ['\n']).head? ≠ some '\n' := by
        by_cases hcr : c = '\r'
        · refine .inr fun hlf => ?_
          cases rest with
          | nil => exact hlast ⟨hcr, rfl⟩
          | cons d rest =>
            rw [List.cons_append, List.head?_cons, Option.some.injEq] at hlf
            exact hnot rest hcr (by rw [hlf])
        · exact .inl hcr
      rw [List.cons_append, lines_cons hhead, if_pos hc]
      rcases ih with h | h
      · exact .inl (congrArg _ h)
      · exact .inr (congrArg _ h)
  | case4 c rest hnot hc ih =>
    have hcr : c ≠ '\r' := by
      rintro rfl
      exact hc (by decide)
    rw [List.cons_append, lines_cons (.inl hcr), if_neg hc]
    by_cases hrest : rest = []
    · subst hrest
      exact .inl rfl
    · rcases ih with h | h
      · exact .inl (congrArg _ h)
      · refine .inr ?_
        rw [h, consFirst_append c (lines_ne_nil hrest)]

theorem isLineBreak_of_not_isBlank {c : Char} (h : isBlank c = false) : isLineBreak c = false := by
  by_contra hc
  rw [Bool.not_eq_false] at hc
  rw [isBlank_of_isLineBreak hc] at h
  cases h

/-! ## Trimming -/

theorem trimRight_eq_self {s : List Char} (h : ∀ c ∈ s.getLast?, isBlank c = false) :
    trimRight s = s := by
  have hstop : Stops isBlank s.reverse := by
    intro c hc
    rw [List.head?_reverse] at hc
    exact h c hc
  have := dropWhile_span (u := []) (by simp) hstop
  rw [List.nil_append] at this
  rw [trimRight, this, List.reverse_reverse]

theorem getLast_trimRight (s : List Char) : ∀ c ∈ (trimRight s).getLast?, isBlank c = false := by
  intro c hc
  rw [trimRight, List.getLast?_reverse] at hc
  exact stops_dropWhile isBlank s.reverse c hc

/-- Trimming cuts off a run of blanks. -/
theorem exists_trimRight (s : List Char) :
    ∃ g, (∀ c ∈ g, isBlank c = true) ∧ s = trimRight s ++ g := by
  refine ⟨(s.reverse.takeWhile isBlank).reverse, fun c hc => ?_, ?_⟩
  · exact all_takeWhile isBlank s.reverse c (List.mem_reverse.mp hc)
  · rw [trimRight, ← List.reverse_append, List.takeWhile_append_dropWhile, List.reverse_reverse]

theorem trimRight_append_gap (s : List Char) {g : List Char} (hg : ∀ c ∈ g, isBlank c = true) :
    trimRight (s ++ g) = trimRight s := by
  rw [trimRight, List.reverse_append,
    List.dropWhile_append_of_pos fun c hc => hg c (List.mem_reverse.mp hc)]
  rfl

theorem trimRight_append (s : List Char) {t : List Char} (ht : trimRight t ≠ []) :
    trimRight (s ++ t) = s ++ trimRight t := by
  obtain ⟨g, hg, hcut⟩ := exists_trimRight t
  conv_lhs => rw [hcut, ← List.append_assoc, trimRight_append_gap _ hg]
  apply trimRight_eq_self
  rw [List.getLast?_append_of_ne_nil _ ht]
  exact getLast_trimRight t

theorem trimRight_trimRight (s : List Char) : trimRight (trimRight s) = trimRight s :=
  trimRight_eq_self (getLast_trimRight s)

/-- A text that starts with no blank still does after trimming. -/
theorem exists_trimRight_cons {c : Char} (h : isBlank c = false) (s : List Char) :
    ∃ t, trimRight (c :: s) = c :: t := by
  obtain ⟨g, hg, hcut⟩ := exists_trimRight (c :: s)
  cases htrim : trimRight (c :: s) with
  | nil =>
    rw [htrim, List.nil_append] at hcut
    have hblank := hg c (by rw [← hcut]; exact List.mem_cons_self)
    rw [h] at hblank
    cases hblank
  | cons d t =>
    rw [htrim] at hcut
    exact ⟨t, by rw [(List.cons.inj hcut).1]⟩

theorem words_trimRight (s : List Char) : words (trimRight s) = words s := by
  obtain ⟨g, hg, hcut⟩ := exists_trimRight s
  by_cases hne : g = []
  · rw [hne, List.append_nil] at hcut
    rw [← hcut]
  · have hwords := words_append_gap (trimRight s) hne hg []
    rw [List.append_nil, ← hcut, words_nil, List.append_nil] at hwords
    exact hwords.symm

theorem mem_of_mem_trimRight {s : List Char} {c : Char} (h : c ∈ trimRight s) : c ∈ s := by
  rw [trimRight, List.mem_reverse] at h
  exact List.mem_reverse.mp ((List.dropWhile_suffix isBlank).subset h)

/-- No blank stands at an end of the text. -/
def IsTrimmed (s : List Char) : Prop :=
  (∀ c ∈ s.head?, isBlank c = false) ∧ ∀ c ∈ s.getLast?, isBlank c = false

/-- The text `t` is `s` without the blanks around it. -/
def TrimsTo (s t : List Char) : Prop :=
  IsTrimmed t ∧ ∃ front back, (∀ c ∈ front, isBlank c = true) ∧ (∀ c ∈ back, isBlank c = true) ∧
    s = front ++ (t ++ back)

theorem isTrimmed_trim (s : List Char) : IsTrimmed (trim s) := by
  refine ⟨?_, getLast_trimRight _⟩
  have hstops := stops_dropWhile isBlank s
  rw [trim]
  cases hrest : s.dropWhile isBlank with
  | nil => exact nofun
  | cons c rest =>
    have hc : isBlank c = false := stops_cons.mp (hrest ▸ hstops)
    obtain ⟨t, ht⟩ := exists_trimRight_cons hc rest
    rw [ht]
    simpa using hc

theorem trimsTo_trim (s : List Char) : TrimsTo s (trim s) := by
  obtain ⟨back, hback, hcut⟩ := exists_trimRight (s.dropWhile isBlank)
  refine ⟨isTrimmed_trim s, s.takeWhile isBlank, back, all_takeWhile isBlank s, hback, ?_⟩
  rw [trim, ← hcut, List.takeWhile_append_dropWhile]

/-- Trimming is the only way to take off the blanks around a text. -/
theorem trim_eq_iff {s t : List Char} : trim s = t ↔ TrimsTo s t := by
  constructor
  · rintro rfl
    exact trimsTo_trim s
  · rintro ⟨⟨hhead, hlast⟩, front, back, hfront, hback, rfl⟩
    by_cases ht : t = []
    · subst ht
      have hnone : (front ++ ([] ++ back)).dropWhile isBlank = [] := by
        rw [List.dropWhile_eq_nil_iff]
        intro c hc
        rcases List.mem_append.mp hc with hc | hc
        · exact hfront c hc
        · exact hback c hc
      rw [trim, hnone]
      rfl
    · have hstops : Stops isBlank (t ++ back) := by
        intro c hc
        rw [List.head?_append_of_ne_nil _ ht] at hc
        exact hhead c hc
      rw [trim, dropWhile_span hfront hstops, trimRight_append_gap t hback,
        trimRight_eq_self hlast]

theorem trim_eq_self_iff {s : List Char} : trim s = s ↔ IsTrimmed s := by
  constructor
  · intro h
    rw [← h]
    exact isTrimmed_trim s
  · intro h
    exact trim_eq_iff.mpr ⟨h, [], [], by simp, by simp, by simp⟩

theorem trim_eq_self {s : List Char} (h : ∀ c ∈ s, isBlank c = false) : trim s = s :=
  trim_eq_self_iff.mpr
    ⟨fun c hc => h c (List.mem_of_mem_head? hc), fun c hc => h c (List.mem_of_mem_getLast? hc)⟩

theorem trim_sublist (s : List Char) : (trim s).Sublist s := by
  obtain ⟨-, front, back, -, -, hcut⟩ := trimsTo_trim s
  exact List.IsInfix.sublist ⟨front, back, by rw [List.append_assoc, ← hcut]⟩

end HotPath.Text
