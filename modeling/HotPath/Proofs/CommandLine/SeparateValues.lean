import HotPath.Proofs.Arguments
import HotPath.Proofs.Text.Span

/-!
# Values in words of their own

The value of a flag can stand behind an equals sign or in the next word. Behind the equals sign it
is taken as it is (`read_spelled`). As a word of its own it has to be told from a flag: one that
starts with a dash is a value only if it cannot mean a flag and is a negative number or has a space
in it (`ReadsAsValue`). The two ways come to the same for exactly these values
(`parse_separate_iff`), and so not for most options of other tools (`not_forall_parse_separate`).
-/

namespace HotPath.CommandLine

/-! ## Negative numbers -/

/-- Digits, and maybe a point with digits behind it. Digits in front of a point can be missing. -/
def IsDecimal (numeral : List Char) : Prop :=
  ∃ whole fraction, numeral = whole ++ fraction ∧ (∀ d ∈ whole, Text.isDigit d = true) ∧
    (fraction = [] ∧ whole ≠ [] ∨
      ∃ digits, fraction = '.' :: digits ∧ digits ≠ [] ∧ ∀ d ∈ digits, Text.isDigit d = true)

/-- A dash with a number behind it; a line feed can stand at the end. -/
def IsNegativeNumber (text : List Char) : Prop :=
  ∃ numeral ending, text = '-' :: (numeral ++ ending) ∧ IsDecimal numeral ∧
    (ending = [] ∨ ending = ['\n'])

theorem IsDecimal.not_mem_lineFeed {numeral : List Char} (h : IsDecimal numeral) :
    '\n' ∉ numeral := by
  have hdigit : Text.isDigit '\n' ≠ true := by decide
  obtain ⟨whole, fraction, rfl, hwhole, ⟨rfl, -⟩ | ⟨digits, rfl, -, hdigits⟩⟩ := h
  · simpa using fun hmem => hdigit (hwhole _ hmem)
  · simpa using ⟨fun hmem => hdigit (hwhole _ hmem), fun hmem => hdigit (hdigits _ hmem)⟩

/-- A number is cut at its first character that is no digit: there it ends, or a point stands there
with the rest of the digits behind it. -/
theorem isDecimal_iff {numeral : List Char} :
    IsDecimal numeral ↔ (match numeral.dropWhile Text.isDigit with
      | [] => (decide (numeral ≠ []) : Bool)
      | '.' :: digits => digits ≠ [] && digits.all Text.isDigit
      | _ => false) = true := by
  have hpoint : Text.isDigit '.' = false := by decide
  have hsplit := List.takeWhile_append_dropWhile (p := Text.isDigit) (l := numeral)
  constructor
  · rintro ⟨whole, fraction, rfl, hwhole, ⟨rfl, hne⟩ | ⟨digits, rfl, hne, hdigits⟩⟩
    · rw [Text.dropWhile_span hwhole (Text.stops_nil _)]
      simpa using hne
    · rw [Text.dropWhile_span hwhole (Text.stops_cons.mpr hpoint)]
      simpa using ⟨hne, hdigits⟩
  · intro h
    refine ⟨_, _, hsplit.symm, Text.all_takeWhile _ _, ?_⟩
    split at h
    case h_1 hnil =>
      rw [hnil, List.append_nil] at hsplit
      exact .inl ⟨hnil, by simpa [hsplit] using h⟩
    case h_2 digits hdigits =>
      exact .inr ⟨digits, hdigits, by simpa using h⟩
    case h_3 => cases h

theorem looksNegative_iff {text : List Char} :
    looksNegative text = true ↔ IsNegativeNumber text := by
  unfold looksNegative IsNegativeNumber
  split
  case h_1 rest =>
    have hdecimal := @isDecimal_iff (if rest.getLast? = some '\n' then rest.dropLast else rest)
    refine hdecimal.symm.trans ?_
    constructor
    · intro h
      split at h
      case isTrue hlast =>
        exact ⟨rest.dropLast, ['\n'], by rw [List.dropLast_append_getLast? _ hlast], h, .inr rfl⟩
      case isFalse => exact ⟨rest, [], by rw [List.append_nil], h, .inl rfl⟩
    · rintro ⟨numeral, ending, heq, hnumeral, rfl | rfl⟩
      · obtain rfl : rest = numeral := by simpa using heq
        rwa [if_neg]
        exact fun hlast => hnumeral.not_mem_lineFeed (List.mem_of_getLast? hlast)
      · obtain rfl : rest = numeral ++ ['\n'] := by simpa using heq
        simpa using hnumeral
  case h_2 text hdash =>
    refine ⟨nofun, ?_⟩
    rintro ⟨numeral, ending, rfl, -, -⟩
    exact absurd rfl (hdash _)

instance (text : List Char) : Decidable (IsNegativeNumber text) :=
  decidable_of_iff _ looksNegative_iff

/-! ## Words that can be values -/

/-- The text asks for help, or its part in front of an equals sign is the name of a flag, maybe cut
short. -/
def MeansFlag (flags : List Flag) (text : String) : Prop :=
  Flag.shortHelp.toList <+: text.toList ∨
    ['-', '-'] <+: text.toList ∧ ∃ f ∈ flags, (cutAtEquals text).1.toList <+: f.word.toList

/-- The text is no flag when it stands in a word of its own. -/
def ReadsAsValue (flags : List Flag) (text : String) : Prop :=
  text.toList.head? ≠ some '-' ∨ text = "-" ∨
    (IsNegativeNumber text.toList ∨ ' ' ∈ text.toList) ∧ ¬ MeansFlag flags text

instance (flags : List Flag) (text : String) : Decidable (MeansFlag flags text) :=
  inferInstanceAs (Decidable (_ ∨ _))

instance (flags : List Flag) (text : String) : Decidable (ReadsAsValue flags text) :=
  inferInstanceAs (Decidable (_ ∨ _))

variable {c : Command} {f : Flag} {text : String} {w : Word}

theorem toList_cutAtEquals (text : String) :
    (cutAtEquals text).1.toList = text.toList.takeWhile (· ≠ '=') := by
  simp only [cutAtEquals, String.toList_ofList]

theorem cutAtEquals_of_not_mem (h : '=' ∉ text.toList) : (cutAtEquals text).1 = text := by
  apply String.toList_inj.mp
  rw [toList_cutAtEquals, List.takeWhile_eq_self_iff]
  intro d hd
  simpa using fun heq : d = '=' => h (heq ▸ hd)

theorem named?_word (hf : f ∈ c.flags) (value : Option String) :
    Word.named? c.flags f.word value = some (.flag f value) := by
  unfold Word.named?
  rw [if_neg (word_ne_shortHelp hf), find_word hf]
  rfl

/-- The name is the short one for help, or that of a flag. -/
theorem name_of_named? {name : String} {value : Option String}
    (h : Word.named? c.flags name value = some w) :
    name = Flag.shortHelp ∨ ∃ f ∈ c.flags, f.word = name := by
  unfold Word.named? at h
  split at h
  case isTrue hshort => exact .inl hshort
  case isFalse =>
    obtain ⟨f, hfind, -⟩ := Option.map_eq_some_iff.mp h
    exact .inr ⟨f, List.mem_of_find?_eq_some hfind, by simpa using List.find?_some hfind⟩

theorem named?_ne_plain {flags : List Flag} {name : String} {value : Option String} :
    Word.named? flags name value ≠ some (.plain text) := by
  unfold Word.named?
  split
  · cases value <;> nofun
  · simp

/-- A flag in a word of its own. -/
theorem read_word (hf : f ∈ c.flags) : Word.read c.flags f.word = .ok (.flag f none) := by
  obtain ⟨name, hname⟩ := exists_dashes hf
  rw [Word.read, hname]
  simp only [named?_word hf]
  rfl

/-- What is named as a flag means a flag. -/
theorem meansFlag_of_named? {value : Option String}
    (h : Word.named? c.flags (cutAtEquals text).1 value = some w) : MeansFlag c.flags text := by
  have hfront : (cutAtEquals text).1.toList <+: text.toList := by
    rw [toList_cutAtEquals]
    exact List.takeWhile_prefix _
  rcases name_of_named? h with hname | ⟨f, hf, hname⟩
  · exact .inl (hname ▸ hfront)
  · obtain ⟨rest, hrest⟩ := exists_dashes hf
    have hdashes : ['-', '-'] <+: f.word.toList := ⟨rest, hrest.symm⟩
    exact .inr ⟨hdashes.trans (hname ▸ hfront), f, hf, hname ▸ List.prefix_refl _⟩

theorem meansFlag_of_named?_whole (h : Word.named? c.flags text none = some w) :
    MeansFlag c.flags text := by
  have hequals : '=' ∉ text.toList := by
    rcases name_of_named? h with rfl | ⟨f, hf, rfl⟩
    · decide
    · exact no_equals_of_mem hf
  rw [← cutAtEquals_of_not_mem hequals] at h
  exact meansFlag_of_named? h

/-- What is written with a dash and is no flag in full is plain if it cannot mean a flag, and is a
negative number or has a space in it. -/
theorem readLoose_eq_plain_iff :
    Word.readLoose c.flags text = .ok (.plain text) ↔
      (IsNegativeNumber text.toList ∨ ' ' ∈ text.toList) ∧ ¬ MeansFlag c.flags text := by
  have hspace : (looksNegative text.toList || text.toList.contains ' ') = true ↔
      IsNegativeNumber text.toList ∨ ' ' ∈ text.toList := by
    rw [Bool.or_eq_true, looksNegative_iff, List.contains_iff_mem]
  have hstarting : (if ['-', '-'].isPrefixOf text.toList then
      c.flags.filter fun f => (cutAtEquals text).1.toList.isPrefixOf f.word.toList else []) = [] ↔
      ¬ (['-', '-'] <+: text.toList ∧
        ∃ f ∈ c.flags, (cutAtEquals text).1.toList <+: f.word.toList) := by
    simp only [← List.isPrefixOf_iff_prefix]
    split <;> simp [List.filter_eq_nil_iff, *]
  rw [MeansFlag, not_or, ← hstarting, ← hspace, ← List.isPrefixOf_iff_prefix]
  simp only [Word.readLoose]
  split
  case h_1 hone =>
    refine iff_of_false nofun ?_
    rintro ⟨-, -, hnone⟩
    exact absurd (hone.symm.trans hnone) nofun
  case h_2 hmany =>
    refine iff_of_false nofun ?_
    rintro ⟨-, -, hnone⟩
    exact absurd (hmany.symm.trans hnone) nofun
  case h_3 hnone =>
    split
    case isTrue hhelp => exact iff_of_false nofun fun h => h.2.1 hhelp
    case isFalse hhelp =>
      split
      case isTrue hvalue => exact iff_of_true rfl ⟨hvalue, hhelp, hnone⟩
      case isFalse hvalue => exact iff_of_false nofun fun h => hvalue h.1

/-- A word is plain exactly if it can be a value. -/
theorem read_eq_plain_iff :
    Word.read c.flags text = .ok (.plain text) ↔ ReadsAsValue c.flags text := by
  unfold Word.read ReadsAsValue
  split
  case h_1 d rest heq =>
    have hhead : text.toList.head? = some '-' := by rw [heq]; rfl
    have hdash : text ≠ "-" := by
      rintro rfl
      cases heq
    simp only [hhead, hdash, ne_eq, not_true_eq_false, false_or]
    split
    case h_1 w hnamed =>
      rcases (Option.orElse_eq_some _ _ _).mp hnamed with hwhole | ⟨-, hcut⟩
      · refine iff_of_false ?_ fun h => h.2 (meansFlag_of_named?_whole hwhole)
        rintro ⟨⟩
        exact named?_ne_plain hwhole
      · obtain ⟨value, -, hcut⟩ := Option.bind_eq_some_iff.mp hcut
        refine iff_of_false ?_ fun h => h.2 (meansFlag_of_named? hcut)
        rintro ⟨⟩
        exact named?_ne_plain hcut
    case h_2 => exact readLoose_eq_plain_iff
  case h_2 hshort =>
    refine iff_of_true rfl ?_
    rcases hlist : text.toList with _ | ⟨d, _ | ⟨d', rest⟩⟩
    · exact .inl nofun
    · by_cases hd : d = '-'
      · exact .inr (.inl (String.toList_inj.mp (hlist.trans (by rw [hd]; rfl))))
      · exact .inl (by simpa using hd)
    · refine .inl fun hhead => ?_
      obtain rfl : d = '-' := by simpa using hhead
      exact hshort d' rest hlist

theorem readLoose_cases (flags : List Flag) (text : String) :
    (∃ w, Word.readLoose flags text = .ok w ∧ ∀ text', w = .plain text' → text' = text) ∨
      ∃ found, Word.readLoose flags text = .error (.ambiguous text found) := by
  simp only [Word.readLoose]
  split
  case h_1 => exact .inl ⟨_, rfl, nofun⟩
  case h_2 => exact .inr ⟨_, rfl⟩
  case h_3 =>
    split
    · exact .inl ⟨_, rfl, nofun⟩
    · split
      · exact .inl ⟨_, rfl, fun _ h => (Word.plain.inj h).symm⟩
      · exact .inl ⟨_, rfl, nofun⟩

/-- A word is read whole, or several flags start like it. -/
theorem read_cases (flags : List Flag) (text : String) :
    (∃ w, Word.read flags text = .ok w ∧ ∀ text', w = .plain text' → text' = text) ∨
      ∃ found, Word.read flags text = .error (.ambiguous text found) := by
  unfold Word.read
  split
  case h_1 =>
    dsimp only
    split
    case h_1 w hnamed =>
      refine .inl ⟨w, rfl, ?_⟩
      rintro text' rfl
      rcases (Option.orElse_eq_some _ _ _).mp hnamed with hwhole | ⟨-, hcut⟩
      · exact absurd hwhole named?_ne_plain
      · obtain ⟨value, -, hcut⟩ := Option.bind_eq_some_iff.mp hcut
        exact absurd hcut named?_ne_plain
    case h_2 => exact readLoose_cases flags text
  case h_2 => exact .inl ⟨_, rfl, fun _ h => (Word.plain.inj h).symm⟩

/-! ## The two ways -/

namespace Invocation

variable {o : ArgumentOption} {value : String}

theorem flag_word_ne_endOfFlags (o : ArgumentOption) : o.flag.word ≠ endOfFlags := by
  cases o <;> decide

theorem flag_ne_help (o : ArgumentOption) : o.flag ≠ .help := by
  cases o <;> decide

theorem parse_spelled (hflag : o.flag ∈ c.flags) (value : String) :
    parse [c.name, spelled o.flag value] =
      .ok (ask { command := c } o (settingOf value)) := by
  refine parse_eq_ok_iff.mpr ⟨?_, [.flag o.flag (some value)], ?_, ?_⟩
  · simpa using (spelled_ne_endOfFlags o.flag value).symm
  · rw [List.mapM_cons, read_spelled hflag]
    rfl
  · rw [readWords, set_flag]
    rfl

/-- What is told from a flag is the value of the flag in front of it. -/
theorem parse_separate_of_readsAsValue (hflag : o.flag ∈ c.flags)
    (hvalue : ReadsAsValue c.flags value) :
    parse [c.name, o.flag.word, value] = .ok (ask { command := c } o (settingOf value)) := by
  have hvalue_ne : value ≠ endOfFlags := by
    rintro rfl
    revert hvalue
    cases c <;> decide +kernel
  refine parse_eq_ok_iff.mpr ⟨?_, [.flag o.flag none, .plain value], ?_, ?_⟩
  · simpa using ⟨(flag_word_ne_endOfFlags o).symm, hvalue_ne.symm⟩
  · rw [List.mapM_cons, List.mapM_cons, read_word hflag, read_eq_plain_iff.mpr hvalue]
    rfl
  · rw [readWords, set_flag]
    · rfl
    · exact flag_ne_help o

/-- A flag has no value unless a plain word stands behind it. -/
theorem readWords_missing {i : Invocation} (hf : f ≠ .help) {words : List Word}
    (hwords : ∀ text rest, words ≠ .plain text :: rest) :
    readWords i (.flag f none :: words) =
      .error (.error (some i.command) (.missingValue f)) := by
  rw [readWords]
  · exact hf
  · exact hwords

theorem readCommand_of_mapM {line : List String} {reason : UsageError}
    (hwords : (cutAtEnd line).1.mapM (Word.read c.flags) = .error reason) :
    readCommand c line = .error (.error (some c) reason) := by
  unfold readCommand
  dsimp only
  rw [hwords]
  rfl

theorem readCommand_of_readWords {line : List String} {words : List Word} {stop : Stop}
    (hwords : (cutAtEnd line).1.mapM (Word.read c.flags) = .ok words)
    (hread : readWords { command := c } words = .error stop) :
    readCommand c line = .error stop := by
  unfold readCommand
  dsimp only
  rw [hwords]
  change (readWords { command := c } words >>= _) = _
  rw [hread]
  rfl

/-- Whatever is not told from a flag leaves the flag in front of it without a value, or is a flag
cut too short. -/
theorem parse_separate_of_not_readsAsValue (hflag : o.flag ∈ c.flags)
    (hvalue : ¬ ReadsAsValue c.flags value) :
    ∃ reason, parse [c.name, o.flag.word, value] = .error (.error (some c) reason) ∧
      (reason = .missingValue o.flag ∨ ∃ found, reason = .ambiguous value found) := by
  have hstop {reason : UsageError}
      (hread : readCommand c [o.flag.word, value] = .error (.error (some c) reason)) :
      parse [c.name, o.flag.word, value] = .error (.error (some c) reason) := by
    rw [parse, readLine_command, hread]
    rfl
  by_cases hend : value = endOfFlags
  · have hcut : cutAtEnd [o.flag.word, value] = ([o.flag.word], [value]) := by
      cases o <;> rw [hend] <;> rfl
    have hwords : (cutAtEnd [o.flag.word, value]).1.mapM (Word.read c.flags) =
        .ok [.flag o.flag none] := by
      rw [hcut, List.mapM_cons, read_word hflag]
      rfl
    have hnext (text : String) (rest : List Word) : [] ≠ .plain text :: rest :=
      (List.cons_ne_nil _ _).symm
    exact ⟨_, hstop (readCommand_of_readWords hwords (readWords_missing (flag_ne_help o) hnext)),
      .inl rfl⟩
  · have hcut : cutAtEnd [o.flag.word, value] = ([o.flag.word, value], []) :=
      cutAtEnd_of_not_mem (by simpa using ⟨(flag_word_ne_endOfFlags o).symm, Ne.symm hend⟩)
    rcases read_cases c.flags value with ⟨w, hword, hplain⟩ | ⟨found, hword⟩
    · have hw : ∀ text rest, [w] ≠ .plain text :: rest := by
        intro text rest h
        obtain rfl : w = .plain text := (List.cons.inj h).1
        obtain rfl := hplain text rfl
        exact hvalue (read_eq_plain_iff.mp hword)
      have hwords : (cutAtEnd [o.flag.word, value]).1.mapM (Word.read c.flags) =
          .ok [.flag o.flag none, w] := by
        rw [hcut, List.mapM_cons, List.mapM_cons, read_word hflag, hword]
        rfl
      exact ⟨_, hstop (readCommand_of_readWords hwords (readWords_missing (flag_ne_help o) hw)),
        .inl rfl⟩
    · refine ⟨_, hstop (readCommand_of_mapM ?_), .inr ⟨found, rfl⟩⟩
      rw [hcut, List.mapM_cons, List.mapM_cons, read_word hflag, hword]
      rfl

/-- **Values in words of their own.** Behind an equals sign every text is taken as the value of the
option. In a word of its own it is taken as the same value exactly if it cannot be taken for a flag;
otherwise the line is in error, because the flag is left without a value or the text is a flag cut
too short. -/
theorem parse_separate_iff {o : ArgumentOption} {cmd : Command} (hflag : o.flag ∈ cmd.flags)
    (value : String) :
    parse [cmd.name, spelled o.flag value] = .ok (ask { command := cmd } o (settingOf value)) ∧
      (parse [cmd.name, o.flag.word, value] = parse [cmd.name, spelled o.flag value]
        ↔ ReadsAsValue cmd.flags value) ∧
      (¬ ReadsAsValue cmd.flags value →
        ∃ reason, parse [cmd.name, o.flag.word, value] = .error (.error (some cmd) reason) ∧
          (reason = .missingValue o.flag ∨ ∃ found, reason = .ambiguous value found)) := by
  rw [parse_spelled hflag]
  refine ⟨rfl, ⟨fun h => ?_, parse_separate_of_readsAsValue hflag⟩,
    parse_separate_of_not_readsAsValue hflag⟩
  by_contra hvalue
  obtain ⟨reason, hparse, -⟩ := parse_separate_of_not_readsAsValue hflag hvalue
  rw [hparse] at h
  cases h

/-- A title for the renderer has a space in it, so it can stand in a word of its own. -/
theorem parse_separate_title :
    Flag.rendererArgs ∈ Command.profileSampling.flags ∧
      ReadsAsValue Command.profileSampling.flags "--title lispy" ∧
      parse ["profile-sampling", "--renderer-args", "--title lispy"] =
        parse ["profile-sampling", "--renderer-args=--title lispy"] := by
  have hflag : Flag.rendererArgs ∈ Command.profileSampling.flags := by decide
  have hvalue : ReadsAsValue Command.profileSampling.flags "--title lispy" := by decide +kernel
  obtain ⟨-, hsame, -⟩ := parse_separate_iff (o := .renderer) hflag "--title lispy"
  exact ⟨hflag, hvalue, hsame.mpr hvalue⟩

/-- The columns to show are named in a word that starts like a flag and has no space in it. -/
theorem not_forall_parse_separate :
    ¬ ∀ (o : ArgumentOption) (cmd : Command) (value : String), o.flag ∈ cmd.flags →
      parse [cmd.name, o.flag.word, value] = parse [cmd.name, spelled o.flag value] := by
  intro h
  have hflag : ArgumentOption.annotate.flag ∈ Command.annotate.flags := by decide
  have hvalue : ¬ ReadsAsValue Command.annotate.flags "--show=Ir,D1mr" := by decide +kernel
  have hsame := h .annotate .annotate "--show=Ir,D1mr" hflag
  rw [parse_spelled hflag] at hsame
  obtain ⟨reason, hparse, -⟩ := parse_separate_of_not_readsAsValue hflag hvalue
  rw [hparse] at hsame
  cases hsame

end Invocation

end HotPath.CommandLine
