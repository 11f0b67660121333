import HotPath.Text.Utf8

/-!
# Bytes of ASCII characters

No byte of an ASCII character is part of a longer sequence. So the bytes of an ASCII text are read
as the characters they stand for (`decodeLenient_ascii`), and an ASCII character among any other
bytes, malformed ones included, ends what is read in front of it (`decodeLenient_append_cons`).
-/

namespace HotPath.Text.Utf8

theorem decodeLenient_ascii {bytes : Bytes} (h : ∀ b ∈ bytes, b < 0x80) :
    decodeLenient bytes = bytes.map fun b => Char.ofNat b.toNat := by
  induction bytes with
  | nil => rw [decodeLenient, List.map_nil]
  | cons b bytes ih =>
    have hhead : head b bytes = .char (Char.ofNat b.toNat) 1 := by
      rw [head, if_pos (h b List.mem_cons_self)]
    rw [decodeLenient, hhead, List.map_cons]
    exact congrArg _ (ih fun b' hb' => h b' (List.mem_cons_of_mem b hb'))

/-! ## Heads in front of an ASCII character -/

/-- The character that is read for a head. -/
def Head.shown : Head → Char
  | .char c _ => c
  | .malformed _ _ => '\uFFFD'

theorem decodeLenient_cons (b : UInt8) (rest : Bytes) :
    decodeLenient (b :: rest) =
      (head b rest).shown :: decodeLenient (rest.drop ((head b rest).length - 1)) := by
  rw [decodeLenient]
  cases head b rest <;> rfl

/-- Two heads that are read as the same character and of the same length; the flaws of malformed
stretches may differ. -/
structure Head.Alike (h h' : Head) : Prop where
  shown : h.shown = h'.shown
  length : h.length = h'.length

theorem not_isContinuation {b : UInt8} (hb : b < 0x80) : isContinuation b = false := by
  simp [isContinuation, UInt8.not_le.mpr hb]

/-- An ASCII character stops a sequence where the end of the bytes would. -/
theorem continuation_append_cons {b : UInt8} (hb : b < 0x80) (missing : Nat) (rest after : Bytes)
    (code read : Nat) :
    (continuation code read missing (rest ++ b :: after)).Alike
      (continuation code read missing rest) := by
  induction missing generalizing code read rest with
  | zero => exact ⟨rfl, rfl⟩
  | succ missing ih =>
    cases rest with
    | nil =>
      have hstop : continuation code read (missing + 1) (b :: after) =
          .malformed .invalidContinuation read := by
        rw [continuation, not_isContinuation hb, if_neg Bool.false_ne_true]
      rw [List.nil_append, hstop, continuation]
      exact ⟨rfl, rfl⟩
    | cons c rest =>
      rw [List.cons_append, continuation, continuation]
      split
      · exact ih rest _ _
      · exact ⟨rfl, rfl⟩

theorem low_of_shape {a : UInt8} {size : Nat} {low high : UInt8}
    (h : shape? a = some (size, low, high)) : 0x80 ≤ low := by
  unfold shape? at h
  repeat' split at h
  all_goals cases h
  all_goals decide

theorem head_append_cons {b : UInt8} (hb : b < 0x80) (a : UInt8) (rest after : Bytes) :
    (head a (rest ++ b :: after)).Alike (head a rest) := by
  rw [head, head]
  split
  · exact ⟨rfl, rfl⟩
  · cases hshape : shape? a with
    | none => exact ⟨rfl, rfl⟩
    | some bounds =>
      obtain ⟨size, low, high⟩ := bounds
      cases rest with
      | nil =>
        have hlow : ¬ low ≤ b := UInt8.not_le.mpr (UInt8.lt_of_lt_of_le hb (low_of_shape hshape))
        simp only [List.nil_append, decide_eq_false hlow, Bool.false_and, Bool.false_eq_true,
          if_false]
        exact ⟨rfl, rfl⟩
      | cons c rest =>
        simp only [List.cons_append]
        split
        · exact continuation_append_cons hb _ rest after _ _
        · exact ⟨rfl, rfl⟩

/-! ## Lengths of heads -/

theorem length_continuation_le (missing : Nat) (rest : Bytes) (code read : Nat) :
    (continuation code read missing rest).length ≤ read + rest.length := by
  induction missing generalizing code read rest with
  | zero => exact Nat.le_add_right read rest.length
  | succ missing ih =>
    cases rest with
    | nil => exact Nat.le_refl read
    | cons c rest =>
      rw [continuation, List.length_cons]
      split
      · exact Nat.le_trans (ih rest _ _) (by omega)
      · exact Nat.le_add_right read _

theorem length_head_le (a : UInt8) (rest : Bytes) : (head a rest).length ≤ rest.length + 1 := by
  rw [head]
  split
  · exact Nat.le_add_left 1 _
  · cases shape? a with
    | none => exact Nat.le_add_left 1 _
    | some bounds =>
      cases rest with
      | nil => exact Nat.le_refl 1
      | cons c rest =>
        simp only [List.length_cons]
        split
        · exact Nat.le_trans (length_continuation_le _ rest _ 2) (by omega)
        · exact Nat.le_add_left 1 _

/-- What is read in front of an ASCII character does not depend on what is behind it, and is read
as if the bytes ended there. -/
theorem decodeLenient_append_cons {b : UInt8} (hb : b < 0x80) (before after : Bytes) :
    decodeLenient (before ++ b :: after) =
      decodeLenient before ++ Char.ofNat b.toNat :: decodeLenient after := by
  -- A head takes several bytes at once, so the induction is on the length.
  induction hn : before.length using Nat.strongRecOn generalizing before with
  | ind n ih =>
    cases before with
    | nil =>
      have hhead : head b after = .char (Char.ofNat b.toNat) 1 := by rw [head, if_pos hb]
      rw [List.nil_append, decodeLenient_cons, hhead, decodeLenient]
      rfl
    | cons a rest =>
      have halike := head_append_cons hb a rest after
      have hlength := length_head_le a rest
      have hdrop : (rest ++ b :: after).drop ((head a rest).length - 1) =
          rest.drop ((head a rest).length - 1) ++ b :: after :=
        List.drop_append_of_le_length (by omega)
      rw [List.length_cons] at hn
      have hrest := ih (rest.drop ((head a rest).length - 1)).length
        (by rw [List.length_drop]; omega) _ rfl
      rw [List.cons_append, decodeLenient_cons, halike.shown, halike.length, hdrop, hrest,
        decodeLenient_cons a rest, List.cons_append]

end HotPath.Text.Utf8
