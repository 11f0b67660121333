import Mathlib
import HotPath.Shell.Words

/-!
# Quoted words

A line of quoted words is read back as the words it was made of, whatever they are
(`split_join`). The reader is followed through one word: harmless characters stand for themselves
(`splitAt_harmless`), and so does everything that is enclosed (`splitAt_enclosed`). Whatever stands
behind the word, the reader comes to it with the word in hand (`splitAt_encodeWord`).
-/

namespace HotPath.Shell

variable {c : Char} {word held rest : List Char}

/-! ## One word -/

/-- A harmless character separates no words and starts no quotes. -/
theorem not_special_of_harmless (h : isHarmless c = true) :
    isSeparator c = false ∧ c ≠ '\\' ∧ c ≠ '\'' ∧ c ≠ '"' := by
  have hne : ∀ d : Char, isHarmless d = false → c ≠ d := by
    rintro d hd rfl
    rw [h] at hd
    cases hd
  refine ⟨?_, hne _ (by decide), hne _ (by decide), hne _ (by decide)⟩
  simp [isSeparator, hne ' ' (by decide), hne '\t' (by decide), hne '\r' (by decide),
    hne '\n' (by decide)]

theorem splitAt_harmless (h : word.all isHarmless = true) :
    splitAt .bare held (word ++ rest) = splitAt .bare (word.reverse ++ held) rest := by
  induction word generalizing held with
  | nil => rfl
  | cons c word ih =>
    rw [List.all_cons, Bool.and_eq_true] at h
    obtain ⟨hseparator, hescape, hsingle, hdouble⟩ := not_special_of_harmless h.1
    have hstep : splitAt .bare held (c :: (word ++ rest)) =
        splitAt .bare (c :: held) (word ++ rest) := by
      simp [splitAt, hseparator, hescape, hsingle, hdouble]
    rw [List.cons_append, hstep, ih h.2, List.reverse_cons, List.append_assoc]
    rfl

/-- An enclosed character is read as it is, also if it is a single quote itself. -/
theorem splitAt_encloseChar (c : Char) :
    splitAt .single held (encloseChar c ++ rest) = splitAt .single (c :: held) rest := by
  unfold encloseChar
  by_cases hc : c = '\''
  · rw [if_pos hc, hc]
    simp [splitAt, isSeparator]
  · rw [if_neg hc]
    simp [splitAt, hc]

theorem splitAt_enclosed (word : List Char) :
    splitAt .single held (word.flatMap encloseChar ++ '\'' :: rest) =
      splitAt .bare (word.reverse ++ held) rest := by
  induction word generalizing held with
  | nil => simp [splitAt]
  | cons c word ih =>
    rw [List.flatMap_cons, List.append_assoc, splitAt_encloseChar, ih, List.reverse_cons,
      List.append_assoc]
    rfl

/-- A quoted word is read as the word, whatever stands behind it. -/
theorem splitAt_encodeWord (word held rest : List Char) :
    splitAt .between held (encodeWord word ++ rest) = splitAt .bare word.reverse rest := by
  unfold encodeWord
  by_cases hword : word ≠ [] ∧ word.all isHarmless = true
  · rw [if_pos hword]
    obtain ⟨c, word, rfl⟩ := List.exists_cons_of_ne_nil hword.1
    have hall := hword.2
    rw [List.all_cons, Bool.and_eq_true] at hall
    obtain ⟨hseparator, hescape, hsingle, hdouble⟩ := not_special_of_harmless hall.1
    have hstep : splitAt .between held (c :: (word ++ rest)) =
        splitAt .bare [c] (word ++ rest) := by
      simp [splitAt, hseparator, hescape, hsingle, hdouble]
    rw [List.cons_append, hstep, splitAt_harmless hall.2, List.reverse_cons]
  · rw [if_neg hword]
    have hopen (tail : List Char) :
        splitAt .between held ('\'' :: tail) = splitAt .single [] tail := by
      simp [splitAt, isSeparator]
    rw [List.cons_append, List.cons_append, hopen, List.append_assoc, List.cons_append,
      List.nil_append, splitAt_enclosed, List.append_nil]

/-! ## Lines of words -/

theorem toList_join_cons_cons (w w' : String) (words : List String) :
    (join (w :: w' :: words)).toList =
      encodeWord w.toList ++ ' ' :: (join (w' :: words)).toList := by
  simp [join]

/-- **Quoted words.** The words of a line that is made of quoted words are these words. -/
theorem split_join (words : List String) : split (join words) = .ok words := by
  have hchars : splitAt .between [] (join words).toList = .ok (words.map String.toList) := by
    induction words with
    | nil => rfl
    | cons w words ih =>
      cases words with
      | nil =>
        have hone : (join [w]).toList = encodeWord w.toList ++ [] := by simp [join]
        rw [hone, splitAt_encodeWord]
        simp [splitAt]
      | cons w' words =>
        rw [toList_join_cons_cons, splitAt_encodeWord]
        have hspace (tail : List Char) : splitAt .bare w.toList.reverse (' ' :: tail) =
            (splitAt .between [] tail).map (w.toList :: ·) := by
          simp [splitAt, isSeparator]
        rw [hspace, ih]
        rfl
  rw [split, hchars]
  simp [Except.map, Function.comp_def]

/-- Different words make different lines. -/
theorem join_injective : Function.Injective join := by
  intro words words' h
  have hsplit := split_join words
  rw [h, split_join] at hsplit
  exact (Except.ok.inj hsplit).symm

end HotPath.Shell
