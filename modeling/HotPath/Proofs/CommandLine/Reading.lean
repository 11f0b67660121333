import HotPath.CommandLine.Invocation
import HotPath.Proofs.Results

/-!
# Reading command lines

A line that is read to its end consists of the name of a command and of words of that command, none
of which is left over (`parse_eq_ok_iff`). Its words are read one after the other, so a line can be
cut where a command line could end (`readWords_append`). A flag that is spelled in full, with its
value in the same word, is read as that flag and that value, whatever the value is
(`read_spelled`).
-/

namespace HotPath.CommandLine

/-! ## Words -/

/-- A flag and its value in one word. -/
def spelled (f : Flag) (value : String) : String := f.word ++ "=" ++ value

section Spelled

variable {c : Command} {f : Flag}

theorem no_equals_of_mem (hf : f ∈ c.flags) : '=' ∉ f.word.toList := by
  cases c <;> revert f <;> decide

theorem find_word (hf : f ∈ c.flags) : c.flags.find? (·.word = f.word) = some f := by
  cases c <;> revert f <;> decide

theorem word_ne_shortHelp (hf : f ∈ c.flags) : f.word ≠ Flag.shortHelp := by
  cases c <;> revert f <;> decide

theorem exists_dashes (hf : f ∈ c.flags) : ∃ name, f.word.toList = '-' :: '-' :: name := by
  refine ⟨f.word.toList.drop 2, ?_⟩
  cases c <;> revert f <;> decide

theorem toList_spelled (f : Flag) (value : String) :
    (spelled f value).toList = f.word.toList ++ '=' :: value.toList := by
  rw [spelled, String.toList_append, String.toList_append, List.append_assoc]
  rfl

theorem cutAtEquals_spelled (hf : f ∈ c.flags) (value : String) :
    cutAtEquals (spelled f value) = (f.word, some value) := by
  have hname : (spelled f value).toList.takeWhile (· ≠ '=') = f.word.toList := by
    rw [toList_spelled, List.takeWhile_append_of_pos, List.takeWhile_cons_of_neg (by simp),
      List.append_nil]
    intro d hd
    simpa using fun h : d = '=' => no_equals_of_mem hf (h ▸ hd)
  unfold cutAtEquals
  simp only [hname]
  rw [toList_spelled, List.drop_left]
  simp

theorem equals_mem_spelled (f : Flag) (value : String) : '=' ∈ (spelled f value).toList := by
  rw [toList_spelled]
  simp

theorem spelled_ne_endOfFlags (f : Flag) (value : String) : spelled f value ≠ endOfFlags := by
  intro h
  have hequals := equals_mem_spelled f value
  rw [h] at hequals
  revert hequals
  decide

/-- A flag that is spelled with its value is read as that. -/
theorem read_spelled (hf : f ∈ c.flags) (value : String) :
    Word.read c.flags (spelled f value) = .ok (.flag f (some value)) := by
  obtain ⟨name, hname⟩ := exists_dashes hf
  have hlist : (spelled f value).toList = '-' :: '-' :: (name ++ '=' :: value.toList) := by
    rw [toList_spelled, hname]
    rfl
  have hequals := equals_mem_spelled f value
  have hshort : spelled f value ≠ Flag.shortHelp := by
    intro h
    rw [h] at hequals
    revert hequals
    decide
  have hwhole : Word.named? c.flags (spelled f value) none = none := by
    have hnone : c.flags.find? (·.word = spelled f value) = none := by
      rw [List.find?_eq_none]
      intro g hg
      simpa using fun h : g.word = spelled f value => no_equals_of_mem hg (h ▸ hequals)
    rw [Word.named?, if_neg hshort, hnone]
    rfl
  have hcut : Word.named? c.flags f.word (some value) = some (.flag f (some value)) := by
    rw [Word.named?, if_neg (word_ne_shortHelp hf), find_word hf]
    rfl
  rw [Word.read, hlist]
  simp only [cutAtEquals_spelled hf, hwhole, Option.bind_some, hcut]
  rfl

end Spelled

/-! ## Words of a command -/

namespace Invocation

variable {i i' : Invocation} {words words' : List Word} {left : List String}

/-- A word that is left over is left over, whatever is read behind it. -/
theorem map_cons_left {x : Except Stop (Invocation × List String)} {text : String}
    (h : x.map (fun r => (r.1, text :: r.2)) = .ok (i', left)) :
    ∃ left', x = .ok (i', left') ∧ left = text :: left' := by
  obtain ⟨r, hx, hr⟩ := map_eq_ok_iff.mp h
  obtain ⟨rfl, rfl⟩ := Prod.mk.inj hr
  exact ⟨r.2, hx, rfl⟩

theorem command_of_set {f : Flag} {value : String} (h : i.set f value = .ok i') :
    i'.command = i.command := by
  unfold set at h
  cases f with
  | help => cases h
  | topCount =>
    dsimp only at h
    split at h <;> cases h <;> rfl
  | format =>
    dsimp only at h
    split at h <;> cases h
    rfl
  | workDir | binary | tool | samplingArgs | rendererArgs | instrumentationArgs | sourceDir
  | annotateArgs =>
    cases h
    rfl

/-- Whatever words are read, the command stays. -/
theorem command_of_readWords (h : readWords i words = .ok (i', left)) : i'.command = i.command := by
  fun_induction readWords i words generalizing left with
  | case1 i =>
    cases h
    rfl
  | case2 i text rest ih =>
    obtain ⟨left', hrest, -⟩ := map_cons_left h
    exact ih hrest
  | case3 i text rest ih =>
    obtain ⟨left', hrest, -⟩ := map_cons_left h
    exact ih hrest
  | case4 => cases h
  | case5 => cases h
  | case6 i f value rest ih =>
    obtain ⟨next, hset, hrest⟩ := bind_eq_ok_iff.mp h
    exact (ih next hrest).trans (command_of_set (mapError_eq_ok_iff.mp hset))
  | case7 i f value rest hf ih =>
    obtain ⟨next, hset, hrest⟩ := bind_eq_ok_iff.mp h
    exact (ih next hrest).trans (command_of_set (mapError_eq_ok_iff.mp hset))
  | case8 => cases h

/-- A command line can be cut where it could end. -/
theorem readWords_append (h : readWords i words = .ok (i', left)) :
    readWords i (words ++ words') =
      (readWords i' words').map fun r => (r.1, left ++ r.2) := by
  fun_induction readWords i words generalizing left with
  | case1 i =>
    cases h
    rw [List.nil_append]
    cases readWords i' words' <;> rfl
  | case2 i text rest ih =>
    obtain ⟨left', hrest, rfl⟩ := map_cons_left h
    rw [List.cons_append, readWords, ih hrest]
    cases readWords i' words' <;> rfl
  | case3 i text rest ih =>
    obtain ⟨left', hrest, rfl⟩ := map_cons_left h
    rw [List.cons_append, readWords, ih hrest]
    cases readWords i' words' <;> rfl
  | case4 => cases h
  | case5 => cases h
  | case6 i f value rest ih =>
    obtain ⟨next, hset, hrest⟩ := bind_eq_ok_iff.mp h
    rw [List.cons_append, readWords, hset]
    exact ih next hrest
  | case7 i f value rest hf ih =>
    obtain ⟨next, hset, hrest⟩ := bind_eq_ok_iff.mp h
    rw [List.cons_append, List.cons_append, readWords, hset]
    · exact ih next hrest
    · exact hf
  | case8 => cases h

/-! ## Lines -/

theorem readLine_command (c : Command) (line : List String) :
    readLine (c.name :: line) = readCommand c line := by
  have hname : c.name ≠ endOfFlags := by cases c <;> decide
  have hplain : Word.read (scopeFlags none) c.name = .ok (.plain c.name) := by
    cases c <;> decide +kernel
  have hcommand : Command.ofName? c.name = some c := by cases c <;> decide
  rw [readLine, if_neg hname, hplain]
  simp only [hcommand]

theorem cutAtEnd_of_not_mem {line : List String} (h : endOfFlags ∉ line) :
    cutAtEnd line = (line, []) := by
  have hfront : line.takeWhile (· ≠ endOfFlags) = line := by
    rw [List.takeWhile_eq_self_iff]
    intro text htext
    simpa using fun heq : text = endOfFlags => h (heq ▸ htext)
  unfold cutAtEnd
  simp only [hfront, List.drop_length]

theorem cutAtEnd_of_mem {line : List String} (h : endOfFlags ∈ line) :
    (cutAtEnd line).2 ≠ [] := by
  intro hnil
  have hall : line.takeWhile (· ≠ endOfFlags) = line := by
    apply (List.takeWhile_prefix _).eq_of_length_le
    exact List.drop_eq_nil_iff.mp hnil
  have hself := List.takeWhile_eq_self_iff.mp hall _ h
  simp at hself

theorem readCommand_eq_ok_iff {c : Command} {line : List String} :
    readCommand c line = .ok (i, left) ↔ ∃ words left',
      (cutAtEnd line).1.mapM (Word.read c.flags) = .ok words ∧
        readWords { command := c } words = .ok (i, left') ∧ left = left' ++ (cutAtEnd line).2 := by
  have hread : readCommand c line =
      ((cutAtEnd line).1.mapM (Word.read c.flags)).mapError (Stop.error (some c)) >>= fun words =>
        readWords { command := c } words >>= fun r => .ok (r.1, r.2 ++ (cutAtEnd line).2) := rfl
  rw [hread]
  constructor
  · intro h
    obtain ⟨words, hwords, h⟩ := bind_eq_ok_iff.mp h
    obtain ⟨⟨i', left'⟩, hread, hpair⟩ := bind_eq_ok_iff.mp h
    obtain ⟨rfl, rfl⟩ := Prod.mk.inj (Except.ok.inj hpair)
    exact ⟨words, left', mapError_eq_ok_iff.mp hwords, hread, rfl⟩
  · rintro ⟨words, left', hwords, hread, rfl⟩
    exact bind_eq_ok_iff.mpr ⟨words, mapError_eq_ok_iff.mpr hwords,
      bind_eq_ok_iff.mpr ⟨(i, left'), hread, rfl⟩⟩

/-- A line that is read to its end names a command and has words of that command behind it, each of
which is read. -/
theorem parse_eq_ok_iff {c : Command} {line : List String} :
    parse (c.name :: line) = .ok i ↔ endOfFlags ∉ line ∧
      ∃ words, line.mapM (Word.read c.flags) = .ok words ∧
        readWords { command := c } words = .ok (i, []) := by
  have hparse : parse (c.name :: line) = readCommand c line >>= fun r =>
      if r.2 = [] then pure r.1 else throw (.error none (.leftOver r.2)) := by
    rw [parse, readLine_command]
  have hleft : parse (c.name :: line) = .ok i ↔ readCommand c line = .ok (i, []) := by
    rw [hparse, bind_eq_ok_iff]
    constructor
    · rintro ⟨⟨i', left⟩, hread, hdone⟩
      by_cases hnil : left = []
      · rw [if_pos hnil] at hdone
        cases hdone
        rw [hread, hnil]
      · rw [if_neg hnil] at hdone
        cases hdone
    · intro hread
      exact ⟨_, hread, rfl⟩
  rw [hleft, readCommand_eq_ok_iff]
  constructor
  · rintro ⟨words, left', hwords, hread, hnil⟩
    obtain ⟨rfl, hbehind⟩ := List.append_eq_nil_iff.mp hnil.symm
    have hend : endOfFlags ∉ line := fun hmem => cutAtEnd_of_mem hmem hbehind
    rw [cutAtEnd_of_not_mem hend] at hwords
    exact ⟨hend, words, hwords, hread⟩
  · rintro ⟨hend, words, hwords, hread⟩
    rw [cutAtEnd_of_not_mem hend]
    exact ⟨words, [], hwords, hread, rfl⟩

theorem command_of_parse {c : Command} {line : List String} (h : parse (c.name :: line) = .ok i) :
    i.command = c := by
  obtain ⟨-, words, -, hread⟩ := parse_eq_ok_iff.mp h
  exact command_of_readWords hread

end Invocation

end HotPath.CommandLine
