/-!
# Blank characters, words and trimming

Blank characters are the white space of Unicode together with the four information separators
`U+001C` to `U+001F`. Words are the maximal runs of other characters.

* `words_append_blank`: a blank character always separates two words.
-/

namespace HotPath.Text

/-- The blank characters: they separate words and are cut off by trimming. -/
def isBlank (c : Char) : Bool :=
  let n := c.toNat
  (9 ≤ n && n ≤ 13) || (28 ≤ n && n ≤ 32) || n == 0x85 || n == 0xA0 || n == 0x1680
    || (0x2000 ≤ n && n ≤ 0x200A) || n == 0x2028 || n == 0x2029 || n == 0x202F || n == 0x205F
    || n == 0x3000

def trimRight (s : List Char) : List Char := (s.reverse.dropWhile isBlank).reverse

def trim (s : List Char) : List Char := trimRight (s.dropWhile isBlank)

/-- The maximal runs of characters that are not blank, in order. -/
def words : List Char → List (List Char)
  | [] => []
  | c :: rest =>
    if isBlank c then words rest
    else match rest with
      | [] => [[c]]
      | d :: _ => if isBlank d then [c] :: words rest else (words rest).modifyHead (c :: ·)

@[simp] theorem words_nil : words [] = [] := rfl

theorem words_cons_blank {c : Char} (h : isBlank c) (s : List Char) : words (c :: s) = words s := by
  simp [words, h]

theorem words_ne_nil {c : Char} (h : isBlank c = false) (s : List Char) : words (c :: s) ≠ [] := by
  induction s generalizing c with
  | nil => simp [words, h]
  | cons d s ih =>
    by_cases hd : isBlank d
    · simp [words, h, hd]
    · have := ih (c := d) (by simpa using hd)
      rw [words]
      simp only [h, hd]
      cases hw : words (d :: s) with
      | nil => exact absurd hw this
      | cons w ws => simp

/-- A blank character ends the word before it and starts no word. -/
theorem words_append_blank (s t : List Char) {b : Char} (hb : isBlank b) :
    words (s ++ b :: t) = words s ++ words t := by
  induction s with
  | nil => simp [words_cons_blank hb]
  | cons c s ih =>
    by_cases hc : isBlank c
    · rw [List.cons_append, words_cons_blank hc, words_cons_blank hc, ih]
    · cases s with
      | nil => simp [words, hc, hb]
      | cons d s =>
        rw [List.cons_append, List.cons_append] at *
        by_cases hd : isBlank d
        · rw [words, words.eq_def (c :: d :: s)]
          simp only [hc, hd, ih]
          rfl
        · rw [words, words.eq_def (c :: d :: s)]
          simp only [hc, hd, ih]
          have := words_ne_nil (c := d) (by simpa using hd) s
          cases hw : words (d :: s) with
          | nil => exact absurd hw this
          | cons w ws => simp

end HotPath.Text
