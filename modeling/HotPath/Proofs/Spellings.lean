import HotPath.Proofs.Arguments

/-!
# Spellings of a source directory

Which texts are the same source directory: those with the same components once the blanks around
them are gone (`plainSourceDir_components`). The plain form is a spelling of its own, but not always
one of the same directory: cutting off a slash can lay a blank bare, and the blanks are cut off
before the slashes. A plain form stays as it is exactly if no blank stands at its ends
(`plainSourceDir_again`).
-/

namespace HotPath

open Text FileSystem

/-! ## Components -/

/-- The texts between the slashes of a text, without the empty ones and `.`. -/
def components (text : List Char) : List String :=
  ((text.splitOn '/').filter fun piece => piece ≠ [] ∧ piece ≠ ['.']).map String.ofList

theorem namesOf_eq_components (text : List Char) : Path.namesOf text = components text := by
  have hname : Path.isName = fun piece => decide (piece ≠ [] ∧ piece ≠ ['.']) := by
    funext piece
    rw [Path.isName, Bool.decide_and]
  rw [Path.namesOf, components, Path.pieces_eq_splitOn, hname]

theorem sourceNames_eq_components {text : String} {t : List Char} (h : TrimsTo text.toList t) :
    sourceNames text = components t := by
  rw [sourceNames, trim_eq_iff.mpr h, namesOf_eq_components]

theorem intercalate_sourceNames_inj {text text' : String}
    (h : "/".intercalate (sourceNames text) = "/".intercalate (sourceNames text')) :
    sourceNames text = sourceNames text' := by
  have hread := congrArg (fun s : String => Path.namesOf s.toList) h
  rwa [Path.namesOf_intercalate (isPlainName_of_mem_sourceNames text),
    Path.namesOf_intercalate (isPlainName_of_mem_sourceNames text')] at hread

/-! ## Prefixes -/

/-- The prefixes of a configuration are those of the plain form of its source directory. -/
theorem Config.prefixes_eq_ok_iff {c : Config} {plain : String} :
    c.prefixes = .ok [plain ++ "/", "./" ++ plain ++ "/", (c.workDir.join plain).text ++ "/"]
      ↔ plainSourceDir c.sourceDir = .ok plain := by
  rw [Config.prefixes, locationPrefixes]
  constructor
  · intro h
    obtain ⟨plain', hplain, hlist⟩ := bind_eq_ok_iff.mp h
    have hfirst : plain' ++ "/" = plain ++ "/" := (List.cons.inj (Except.ok.inj hlist)).1
    rw [hplain, (String.append_left_inj "/").mp hfirst]
  · intro h
    rw [h]
    rfl

/-- A configuration has prefixes if its source directory has names, and their plain form is in front
of each of them. -/
theorem Config.toOption_prefixes (c : Config) :
    c.prefixes.toOption
      = if sourceNames c.sourceDir = [] then none
        else
          let plain := "/".intercalate (sourceNames c.sourceDir)
          some [plain ++ "/", "./" ++ plain ++ "/", (c.workDir.join plain).text ++ "/"] := by
  rw [Config.prefixes, locationPrefixes, plainSourceDir_eq]
  split <;> rfl

/-- Two source directories have the same prefixes exactly if they have the same names. -/
theorem Config.toOption_prefixes_inj (c : Config) (text text' : String) :
    { c with sourceDir := text }.prefixes.toOption = { c with sourceDir := text' }.prefixes.toOption
      ↔ sourceNames text = sourceNames text' := by
  rw [Config.toOption_prefixes, Config.toOption_prefixes]
  constructor
  · intro h
    by_cases hne : sourceNames text = []
    · by_cases hne' : sourceNames text' = []
      · rw [hne, hne']
      · simp only [if_pos hne, if_neg hne'] at h
        cases h
    · by_cases hne' : sourceNames text' = []
      · simp only [if_neg hne, if_pos hne'] at h
        cases h
      · simp only [if_neg hne, if_neg hne'] at h
        have hfirst := (List.cons.inj (Option.some.inj h)).1
        exact intercalate_sourceNames_inj ((String.append_left_inj "/").mp hfirst)
  · intro h
    simp only [h]

/-- **Spellings.** A text without components but empty ones and `.` is no source directory. Of any
other the plain form consists of the remaining components, and these alone decide how the locations
of its files start. -/
theorem plainSourceDir_components :
    (∀ text : String, ∃ t, TrimsTo text.toList t ∧
      (plainSourceDir text = .error (.nameless text) ↔ components t = []) ∧
      (∀ plain, plainSourceDir text = .ok plain
        ↔ components t ≠ [] ∧ plain = "/".intercalate (components t)) ∧
      ∀ plain, plainSourceDir text = .ok plain →
        plain.toList.head? ≠ some '/' ∧ plain.toList.getLast? ≠ some '/') ∧
    ∀ (c : Config) (text text' : String), ∃ t t', TrimsTo text.toList t ∧ TrimsTo text'.toList t' ∧
      ({ c with sourceDir := text }.prefixes.toOption
          = { c with sourceDir := text' }.prefixes.toOption
        ↔ components t = components t') := by
  constructor
  · intro text
    have htrim := trimsTo_trim text.toList
    refine ⟨_, htrim, ?_, ?_, ?_⟩
    · rw [← sourceNames_eq_components htrim, plainSourceDir_eq]
      split
      · simpa
      · simpa
    · intro plain
      rw [← sourceNames_eq_components htrim]
      exact plainSourceDir_eq_ok_iff
    · intro plain hplain
      obtain ⟨-, rfl⟩ := plainSourceDir_eq_ok_iff.mp hplain
      exact ⟨Path.head?_plain (isPlainName_of_mem_sourceNames text),
        Path.getLast?_plain (isPlainName_of_mem_sourceNames text)⟩
  · intro c text text'
    have htrim := trimsTo_trim text.toList
    have htrim' := trimsTo_trim text'.toList
    refine ⟨_, _, htrim, htrim', ?_⟩
    rw [← sourceNames_eq_components htrim, ← sourceNames_eq_components htrim']
    exact c.toOption_prefixes_inj text text'

/-! ## The plain form of a plain form -/

/-- **Plain forms again.** The plain form of a source directory is its own plain form exactly if it
has no blank at its ends; so the locations of a loaded configuration start with its own source
directory exactly then. -/
theorem plainSourceDir_again (text plain : String) (v : View) (e : Environment)
    (vars : Variables) (r : Request) (c : Config) :
    (plainSourceDir text = .ok plain →
      (plainSourceDir plain = .ok plain ↔ IsTrimmed plain.toList)) ∧
    (Config.load v e vars r = .ok c →
      (c.prefixes = .ok [c.sourceDir ++ "/", "./" ++ c.sourceDir ++ "/",
          (c.workDir.join c.sourceDir).text ++ "/"]
        ↔ IsTrimmed c.sourceDir.toList)) := by
  constructor
  · intro h
    exact plainSourceDir_eq_self_iff (isPlain_of_plainSourceDir h)
  · intro h
    rw [Config.prefixes_eq_ok_iff]
    exact plainSourceDir_eq_self_iff (sourceDir_of_load h)

theorem plainSourceDir_again_lib :
    plainSourceDir "./lib/" = .ok "lib" ∧ plainSourceDir "lib" = .ok "lib" ∧
      ∃ c, Config.load bareMachine.view bareMachine.environment bareMachine.environment.bindings
          { binary := .value "p", sourceDir := .value "./lib/" } = .ok c ∧
        c.prefixes = .ok ["lib/", "./lib/", "/lib/"] := by
  have hplain : plainSourceDir "./lib/" = .ok "lib" := rfl
  have htrimmed : IsTrimmed "lib".toList := trim_eq_self_iff.mp rfl
  have hload := load_bareMachine (.value "./lib/")
  rw [chooseSourceDir, hplain] at hload
  obtain ⟨hform, hprefixes⟩ := plainSourceDir_again "./lib/" "lib" _ _ _ _ _
  refine ⟨hplain, (hform hplain).mpr htrimmed, _, hload, ?_⟩
  rw [(hprefixes hload).mpr htrimmed]
  decide +kernel

/-- The slash in front of a blank is cut off after the blanks. -/
theorem not_forall_plainSourceDir_again :
    (¬ ∀ text plain, plainSourceDir text = .ok plain → plainSourceDir plain = .ok plain) ∧
    ¬ ∀ (v : View) (e : Environment) (vars : Variables) (r : Request) (c : Config),
      Config.load v e vars r = .ok c → ∃ prefixes, c.prefixes = .ok prefixes := by
  constructor
  · intro h
    have hplain : plainSourceDir "/ src" = .ok " src" := rfl
    have hagain : plainSourceDir " src" = .ok "src" := rfl
    exact absurd (Except.ok.inj ((h _ _ hplain).symm.trans hagain)) (by decide)
  · intro h
    have hplain : plainSourceDir "/ /" = .ok " " := rfl
    have hload := load_bareMachine (.value "/ /")
    rw [chooseSourceDir, hplain] at hload
    obtain ⟨prefixes, hprefixes⟩ := h _ _ _ _ _ hload
    cases hprefixes

end HotPath
