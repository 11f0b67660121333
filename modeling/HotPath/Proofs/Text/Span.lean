import Mathlib

/-!
# Spans

A reader that takes characters as long as they are of one kind splits its input at the first
character of another kind. There is only one such split: `span_unique`. The readers of a report are
compared with their grammar through it.
-/

namespace HotPath.Text

variable {α : Type} {p : α → Bool}

/-- The list is empty, or its first item is not of the kind `p`. -/
def Stops (p : α → Bool) (t : List α) : Prop := ∀ c ∈ t.head?, p c = false

theorem stops_nil (p : α → Bool) : Stops p [] := by simp [Stops]

theorem stops_cons {c : α} {t : List α} : Stops p (c :: t) ↔ p c = false := by simp [Stops]

theorem stops_dropWhile (p : α → Bool) (s : List α) : Stops p (s.dropWhile p) := by
  intro c hc
  have h := List.head?_dropWhile_not p s
  rw [hc] at h
  simpa using h

theorem all_takeWhile (p : α → Bool) (s : List α) : ∀ c ∈ s.takeWhile p, p c = true :=
  fun _ hc => List.mem_takeWhile_imp hc

theorem takeWhile_span {u t : List α} (hu : ∀ c ∈ u, p c = true) (ht : Stops p t) :
    (u ++ t).takeWhile p = u := by
  rw [List.takeWhile_append_of_pos hu]
  cases t with
  | nil => simp
  | cons c t => rw [List.takeWhile_cons_of_neg (by simp [stops_cons.mp ht]), List.append_nil]

theorem dropWhile_span {u t : List α} (hu : ∀ c ∈ u, p c = true) (ht : Stops p t) :
    (u ++ t).dropWhile p = t := by
  rw [List.dropWhile_append_of_pos hu]
  cases t with
  | nil => rfl
  | cons c t => rw [List.dropWhile_cons_of_neg (by simp [stops_cons.mp ht])]

/-- A list has only one split into items of one kind and a rest that starts with another kind. -/
theorem span_unique {u u' t t' : List α} (hu : ∀ c ∈ u, p c = true) (ht : Stops p t)
    (hu' : ∀ c ∈ u', p c = true) (ht' : Stops p t') (h : u ++ t = u' ++ t') :
    u = u' ∧ t = t' := by
  constructor
  · rw [← takeWhile_span hu ht, h, takeWhile_span hu' ht']
  · rw [← dropWhile_span hu ht, h, dropWhile_span hu' ht']

end HotPath.Text
