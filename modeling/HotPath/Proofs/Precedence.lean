import HotPath.FileSystem.Edit
import HotPath.Proofs.FileSystem.Contents
import HotPath.Proofs.Loading
import HotPath.Proofs.Shell.Endings

/-!
# Who decides a field of a configuration

For each field of a configuration there is a list of sources, and the first that says something
decides. For a name an empty text says nothing; for a line of arguments it is a line without words.
The reference is stated without the order in which loading looks at the fields: when nothing can be
loaded (`Asked.Fails`), and otherwise what the fields are (`Asked.Answers`). Loading agrees with it
(`load_iff_answers`). A program that is named by its option or its variable is loaded without a look
at the manifest.
-/

namespace HotPath

open FileSystem

/-! ## The reference -/

/-- The first of the texts that is given and is not empty. -/
def firstNonempty (texts : List (Option String)) : Option String :=
  texts.reduceOption.find? (· ≠ "")

/-- What is asked for a configuration: each part may be left open. -/
structure Asked where
  workDir : Option String := none
  tools : ToolRole → Option String := fun _ => none
  binary : Option String := none
  samplingArgs : Option String := none
  instrumentationArgs : Option String := none
  rendererArgs : Option String := none
  annotateArgs : Option String := none
  sourceDir : Option String := none
  topCount : Option Int := none

/-- The path that is asked for leads to a directory, and `workDir` is its resolved form. -/
def IsWorkDir (v : View) (e : Environment) (asked : Option String) (workDir : Path) : Prop :=
  ∃ path, askedPath v e asked = .ok path ∧ v.resolve path = .ok workDir ∧
    v.isDirectory workDir = .ok true

/-- The words are those of the line, or the default ones if no line is given. -/
def AreWordsOf (line : Option String) (default words : List String) : Prop :=
  match line with
  | none => words = default
  | some line => Shell.split line = .ok words

/-- The source directory is the plain form of the text, or the default one if no text is given. -/
def IsPlainOf (text : Option String) (default plain : String) : Prop :=
  match text with
  | none => plain = default
  | some text => plainSourceDir text = .ok plain

namespace Asked

def request (a : Asked) : Request where
  workDir := .ofOption a.workDir
  tools r := .ofOption (a.tools r)
  binary := .ofOption a.binary
  samplingArgs := .ofOption a.samplingArgs
  instrumentationArgs := .ofOption a.instrumentationArgs
  rendererArgs := .ofOption a.rendererArgs
  annotateArgs := .ofOption a.annotateArgs
  sourceDir := .ofOption a.sourceDir
  topCount := .ofOption a.topCount

/-- The lines of arguments, each of which may be left open. -/
def lines (a : Asked) : List (Option String) :=
  [a.samplingArgs, a.instrumentationArgs, a.rendererArgs, a.annotateArgs]

/-- The name of the program that is asked for or set in the environment. -/
def binaryName? (a : Asked) (vars : Variables) : Option String :=
  firstNonempty [a.binary, vars.lookup binaryVariable]

variable (v : View) (e : Environment) (vars : Variables)

/-- Why there is no configuration for what is asked. -/
inductive Fails (a : Asked) : Prop where
  | workDir : (∀ workDir, ¬ IsWorkDir v e a.workDir workDir) → Fails a
  | manifest {workDir : Path} {reason : ManifestError} :
      IsWorkDir v e a.workDir workDir → a.binaryName? vars = none →
        defaultBinary v workDir = .error reason → Fails a
  | arguments {line : String} :
      some line ∈ a.lines → Shell.EndsInQuotes line ∨ Shell.EndsInEscape line → Fails a
  | sourceDir {text : String} {reason : SourceDirError} :
      a.sourceDir = some text → plainSourceDir text = .error reason → Fails a
  | topCount {n : Int} : a.topCount = some n → n < 1 → Fails a

/-- Each field of the configuration `c` is what its first source says. -/
structure Answers (a : Asked) (c : Config) : Prop where
  workDir : IsWorkDir v e a.workDir c.workDir
  tools : ∀ r : ToolRole,
    firstNonempty [a.tools r, vars.lookup r.variableName, some r.default] = some (c.tools r)
  binary : match a.binaryName? vars with
    | some name => c.binary = name
    | none => defaultBinary v c.workDir = .ok c.binary
  samplingArgs : AreWordsOf a.samplingArgs ["1000"] c.samplingArgs
  instrumentationArgs : AreWordsOf a.instrumentationArgs [] c.instrumentationArgs
  rendererArgs : AreWordsOf a.rendererArgs [] c.rendererArgs
  annotateArgs : AreWordsOf a.annotateArgs [] c.annotateArgs
  sourceDir : IsPlainOf a.sourceDir "src" c.sourceDir
  topCount : c.topCount = a.topCount.getD 10
  buildArgs : c.buildArgs = ["build", "--release"]
  outputPattern : c.outputPattern = "cachegrind.out.*"
  traceName : c.traceName = "perf.data"
  flamegraphName : c.flamegraphName = "flamegraph.svg"

end Asked

/-! ## Field by field -/

namespace Setting

variable {α : Type} (asked : Option α)

theorem value?_ofOption : (ofOption asked).value? = asked := by
  cases asked <;> rfl

theorem ofOption_ne_empty : ofOption asked ≠ .empty := by
  cases asked <;> exact nofun

theorem ofOption_eq_value_iff {a : α} : ofOption asked = .value a ↔ asked = some a := by
  cases asked <;> simp [ofOption]

end Setting

theorem firstNonempty_cons (text : Option String) (texts : List (Option String)) :
    firstNonempty (text :: texts) = (text.bind nonempty?).or (firstNonempty texts) := by
  unfold firstNonempty
  cases text with
  | none => rfl
  | some text =>
    rw [List.reduceOption_cons_of_some, List.find?_cons, Option.bind_some, nonempty?]
    by_cases hempty : text = ""
    · simp [hempty]
    · simp [hempty]

theorem firstNonempty_pair (first second : Option String) :
    firstNonempty [first, second] = (first.bind nonempty?).or (second.bind nonempty?) := by
  rw [firstNonempty_cons, firstNonempty_cons]
  exact congrArg _ Option.or_none

theorem firstNonempty_default (first second : Option String) {default : String}
    (h : default ≠ "") :
    firstNonempty [first, second, some default]
      = some (((first.bind nonempty?).or (second.bind nonempty?)).getD default) := by
  have hdefault : firstNonempty [some default] = some default := by
    rw [firstNonempty_cons, Option.bind_some, nonempty?, if_neg h]
    rfl
  rw [firstNonempty_cons, firstNonempty_cons, hdefault]
  cases first.bind nonempty? with
  | some name => rfl
  | none => cases second.bind nonempty? <;> rfl

theorem ToolRole.default_ne_empty (r : ToolRole) : r.default ≠ "" := by
  cases r <;> decide

theorem findWorkDir_eq_ok_iff {v : View} {e : Environment} {asked : Option String}
    {workDir : Path} : findWorkDir v e asked = .ok workDir ↔ IsWorkDir v e asked workDir := by
  unfold findWorkDir IsWorkDir
  constructor
  · intro h
    obtain ⟨path, hpath, h⟩ := bind_eq_ok_iff.mp h
    obtain ⟨resolved, hresolved, h⟩ := bind_eq_ok_iff.mp h
    obtain ⟨found, hfound, h⟩ := bind_eq_ok_iff.mp h
    cases found with
    | false => cases h
    | true =>
      cases h
      exact ⟨path, hpath, mapError_eq_ok_iff.mp hresolved, mapError_eq_ok_iff.mp hfound⟩
  · rintro ⟨path, hpath, hresolved, hfound⟩
    refine bind_eq_ok_iff.mpr ⟨path, hpath, ?_⟩
    refine bind_eq_ok_iff.mpr ⟨workDir, mapError_eq_ok_iff.mpr hresolved, ?_⟩
    exact bind_eq_ok_iff.mpr ⟨true, mapError_eq_ok_iff.mpr hfound, rfl⟩

theorem chooseBinary_eq (v : View) (vars : Variables) (asked : Option String) (workDir : Path) :
    chooseBinary v vars (.ofOption asked) workDir =
      match firstNonempty [asked, vars.lookup binaryVariable] with
      | some name => .ok name
      | none => defaultBinary v workDir := by
  rw [chooseBinary, Setting.value?_ofOption]
  cases hname : firstNonempty [asked, vars.lookup binaryVariable] with
  | none =>
    rw [firstNonempty_pair] at hname
    rw [hname]
  | some name =>
    rw [firstNonempty_pair] at hname
    rw [hname]

theorem argumentsOf_eq_ok_iff {line : Option String} {default words : List String} :
    argumentsOf (.ofOption line) default = .ok words ↔ AreWordsOf line default words := by
  cases line with
  | none => simp [argumentsOf, Setting.ofOption, AreWordsOf, eq_comm]
  | some line => exact mapError_eq_ok_iff

/-- A line that is read as words ends neither between quotes nor behind a lone backslash. -/
theorem AreWordsOf.ends {line : String} {default words : List String}
    (h : AreWordsOf (some line) default words) :
    ¬ (Shell.EndsInQuotes line ∨ Shell.EndsInEscape line) := by
  intro hopen
  obtain ⟨reason, hrefused⟩ := Shell.exists_split_error_iff.mpr hopen
  cases hrefused.symm.trans h

theorem chooseSourceDir_eq_ok_iff {text : Option String} {default plain : String} :
    chooseSourceDir (.ofOption text) default = .ok plain ↔ IsPlainOf text default plain := by
  cases text with
  | none => simp [chooseSourceDir, Setting.ofOption, IsPlainOf, eq_comm]
  | some text => simp only [Setting.ofOption, chooseSourceDir, mapError_eq_ok_iff, IsPlainOf]

theorem chooseTopCount_eq_ok_iff {asked : Option Int} {default n : Int} :
    chooseTopCount (.ofOption asked) default = .ok n
      ↔ n = asked.getD default ∧ ∀ k, asked = some k → 1 ≤ k := by
  cases asked with
  | none => simp [chooseTopCount, Setting.ofOption, eq_comm]
  | some k =>
    by_cases hsmall : k < 1
    · simp [chooseTopCount, Setting.ofOption, hsmall]
    · have hleast : 1 ≤ k := by omega
      simp [chooseTopCount, Setting.ofOption, hsmall, hleast, eq_comm]

namespace Asked

variable {v : View} {e : Environment} {vars : Variables} {a : Asked} {c : Config}

theorem binary_iff : chooseBinary v vars a.request.binary c.workDir = .ok c.binary ↔
    match a.binaryName? vars with
    | some name => c.binary = name
    | none => defaultBinary v c.workDir = .ok c.binary := by
  rw [request, chooseBinary_eq, binaryName?]
  cases firstNonempty [a.binary, vars.lookup binaryVariable] with
  | some name => simp [eq_comm]
  | none => rfl

/-- A configuration answers to what is asked exactly if its fields are what their sources say. -/
theorem answersTo_iff : c.AnswersTo v e vars a.request
    ↔ a.Answers v e vars c ∧ ∀ n, a.topCount = some n → 1 ≤ n := by
  have hworkDir : findWorkDir v e a.request.workDir.value? = .ok c.workDir
      ↔ IsWorkDir v e a.workDir c.workDir := by
    rw [request, Setting.value?_ofOption, findWorkDir_eq_ok_iff]
  have htools : ∀ r : ToolRole,
      firstNonempty [a.tools r, vars.lookup r.variableName, some r.default]
        = some (chooseTools (fun t => (a.request.tools t).value?) vars r) := by
    intro r
    simp only [firstNonempty_default _ _ r.default_ne_empty, request, Setting.value?_ofOption]
    rfl
  constructor
  · intro h
    obtain ⟨hcount, hleast⟩ := chooseTopCount_eq_ok_iff.mp h.topCount
    refine ⟨⟨hworkDir.mp h.workDir, ?_, binary_iff.mp h.binary,
      argumentsOf_eq_ok_iff.mp h.samplingArgs, argumentsOf_eq_ok_iff.mp h.instrumentationArgs,
      argumentsOf_eq_ok_iff.mp h.rendererArgs, argumentsOf_eq_ok_iff.mp h.annotateArgs,
      chooseSourceDir_eq_ok_iff.mp h.sourceDir, hcount, ?_, ?_, ?_, ?_⟩, hleast⟩
    · intro r
      rw [htools, h.others]
    all_goals rw [h.others]
  · rintro ⟨h, hleast⟩
    refine ⟨Setting.ofOption_ne_empty _, hworkDir.mpr h.workDir, binary_iff.mpr h.binary,
      argumentsOf_eq_ok_iff.mpr h.samplingArgs, argumentsOf_eq_ok_iff.mpr h.instrumentationArgs,
      argumentsOf_eq_ok_iff.mpr h.rendererArgs, argumentsOf_eq_ok_iff.mpr h.annotateArgs,
      chooseSourceDir_eq_ok_iff.mpr h.sourceDir,
      chooseTopCount_eq_ok_iff.mpr ⟨h.topCount, hleast⟩, ?_⟩
    have hown : c.tools = chooseTools (fun t => (a.request.tools t).value?) vars := by
      funext r
      exact Option.some.inj ((h.tools r).symm.trans (htools r))
    obtain ⟨-, -, -, -, -, -, -, -, -, hbuild, hpattern, htrace, hgraph⟩ := h
    cases c
    simp only at hown hbuild hpattern htrace hgraph
    rw [hown, hbuild, hpattern, htrace, hgraph]

theorem load_ok_iff : Config.load v e vars a.request = .ok c
    ↔ a.Answers v e vars c ∧ ∀ n, a.topCount = some n → 1 ≤ n := by
  rw [load_eq_ok_iff, answersTo_iff]

/-- What is loaded fails for none of the reasons. -/
theorem not_fails_of_load (h : Config.load v e vars a.request = .ok c) : ¬ a.Fails v e vars := by
  obtain ⟨hanswers, hleast⟩ := load_ok_iff.mp h
  intro hfails
  cases hfails with
  | workDir hnone => exact hnone _ hanswers.workDir
  | manifest hdir hname hunreadable =>
    have hsame := (findWorkDir_eq_ok_iff.mpr hdir).symm.trans
      (findWorkDir_eq_ok_iff.mpr hanswers.workDir)
    obtain rfl := Except.ok.inj hsame
    have hbinary := hanswers.binary
    rw [hname] at hbinary
    cases hunreadable.symm.trans hbinary
  | arguments hline hopen =>
    simp only [lines, List.mem_cons, List.not_mem_nil, or_false] at hline
    rcases hline with hline | hline | hline | hline
    · exact (hline ▸ hanswers.samplingArgs).ends hopen
    · exact (hline ▸ hanswers.instrumentationArgs).ends hopen
    · exact (hline ▸ hanswers.rendererArgs).ends hopen
    · exact (hline ▸ hanswers.annotateArgs).ends hopen
  | sourceDir htext hnameless =>
    have hsourceDir := hanswers.sourceDir
    rw [htext] at hsourceDir
    cases hnameless.symm.trans hsourceDir
  | topCount hn hsmall => exact absurd (hleast _ hn) (by omega)

theorem fails_of_load {reason : LoadError}
    (h : Config.load v e vars a.request = .error reason) : a.Fails v e vars := by
  have hlines : [a.request.samplingArgs, a.request.instrumentationArgs, a.request.rendererArgs,
      a.request.annotateArgs] = a.lines.map .ofOption := rfl
  cases lacks_of_load h with
  | workDirValue hr => exact absurd hr (Setting.ofOption_ne_empty _)
  | workDir hnone =>
    rw [request, Setting.value?_ofOption] at hnone
    refine .workDir fun workDir hdir => ?_
    cases hnone.symm.trans (findWorkDir_eq_ok_iff.mpr hdir)
  | @manifest workDir _ hdir hunreadable =>
    rw [request, Setting.value?_ofOption, findWorkDir_eq_ok_iff] at hdir
    rw [request, chooseBinary_eq] at hunreadable
    cases hname : a.binaryName? vars with
    | some name =>
      rw [binaryName?] at hname
      rw [hname] at hunreadable
      cases hunreadable
    | none =>
      have hunnamed := hname
      rw [binaryName?] at hunnamed
      rw [hunnamed] at hunreadable
      exact .manifest hdir hname hunreadable
  | argumentsValue hline =>
    rw [hlines] at hline
    obtain ⟨line, -, hempty⟩ := List.mem_map.mp hline
    exact absurd hempty (Setting.ofOption_ne_empty line)
  | arguments hline hrefused =>
    rw [hlines] at hline
    obtain ⟨line, hmem, hvalue⟩ := List.mem_map.mp hline
    rw [Setting.ofOption_eq_value_iff] at hvalue
    subst hvalue
    exact .arguments hmem (Shell.exists_split_error_iff.mp ⟨_, hrefused⟩)
  | sourceDirValue hr => exact absurd hr (Setting.ofOption_ne_empty _)
  | sourceDir hr hnameless => exact .sourceDir ((Setting.ofOption_eq_value_iff _).mp hr) hnameless
  | topCountValue hr => exact absurd hr (Setting.ofOption_ne_empty _)
  | topCount hr hsmall => exact .topCount ((Setting.ofOption_eq_value_iff _).mp hr) hsmall

/-- A program that is named without the manifest is loaded whatever the files hold. -/
theorem load_refill (h : a.binaryName? vars ≠ none) (content : Address → Bytes) :
    Config.load (v.refill content) e vars a.request = Config.load v e vars a.request := by
  have hbinary (workDir : Path) : chooseBinary (v.refill content) vars a.request.binary workDir
      = chooseBinary v vars a.request.binary workDir := by
    rw [request, chooseBinary_eq, chooseBinary_eq]
    obtain ⟨name, hname⟩ := Option.ne_none_iff_exists'.mp h
    rw [binaryName?] at hname
    rw [hname]
  simp only [Config.load, findWorkDir_refill, hbinary]

end Asked

/-- **Who decides.** Loading fails exactly if there is no work directory, the name of the program
has to be read from a manifest that cannot be read, a line of arguments ends too early, or the
source directory or the count is out of range. Otherwise each field is what the first of its sources
says, and the contents of files matter only where the manifest names the program. -/
theorem load_iff_answers (v : View) (e : Environment) (vars : Variables) (a : Asked) :
    ((∃ reason, Config.load v e vars a.request = .error reason) ↔ a.Fails v e vars) ∧
    (∀ c, Config.load v e vars a.request = .ok c ↔ ¬ a.Fails v e vars ∧ a.Answers v e vars c) ∧
    (a.binaryName? vars ≠ none → ∀ content : Address → Bytes,
      Config.load (v.refill content) e vars a.request = Config.load v e vars a.request) := by
  refine ⟨⟨?_, ?_⟩, fun c => ⟨?_, ?_⟩, Asked.load_refill⟩
  · rintro ⟨reason, h⟩
    exact Asked.fails_of_load h
  · intro hfails
    cases h : Config.load v e vars a.request with
    | error reason => exact ⟨reason, rfl⟩
    | ok c => exact absurd hfails (Asked.not_fails_of_load h)
  · intro h
    exact ⟨Asked.not_fails_of_load h, (Asked.load_ok_iff.mp h).1⟩
  · rintro ⟨hfails, hanswers⟩
    refine Asked.load_ok_iff.mpr ⟨hanswers, fun n hn => ?_⟩
    by_contra hsmall
    exact hfails (.topCount hn (by omega))

/-- A project whose manifest is no text. -/
def garbledProject : View :=
  View.empty.insert [manifestName] (.file [0xff] false) (by decide +kernel)

theorem isWorkDir_garbledProject :
    IsWorkDir garbledProject ⟨[], [], none⟩ none ⟨.slash, []⟩ := by
  refine findWorkDir_eq_ok_iff.mp ?_
  cbv

theorem defaultBinary_garbledProject :
    defaultBinary garbledProject ⟨.slash, []⟩ =
      .error (.notText ⟨0, [0xff], .invalidStart⟩) := by
  have hlocate : garbledProject.locate .find ((⟨.slash, []⟩ : Path).child manifestName) =
      .ok ⟨[manifestName], 0⟩ := by
    cbv
  have hread : garbledProject.read? ((⟨.slash, []⟩ : Path).child manifestName) =
      .ok (some [0xff]) := by
    rw [View.read?, View.find, if_neg (by decide +kernel), View.stat, hlocate]
    rfl
  have hpackage : manifestPackage? [0xff] = .error (.notText ⟨0, [0xff], .invalidStart⟩) := by
    decide +kernel
  rw [defaultBinary, hread]
  change (manifestPackage? [0xff] >>= _) = _
  rw [hpackage]
  rfl

theorem load_iff_answers_garbled :
    (∃ reason, Config.load garbledProject ⟨[], [], none⟩ [] ({} : Asked).request = .error reason) ∧
    ({ binary := some "p" } : Asked).binaryName? [] ≠ none ∧
    ∀ content : Address → Bytes,
      Config.load (garbledProject.refill content) ⟨[], [], none⟩ []
          ({ binary := some "p" } : Asked).request
        = Config.load garbledProject ⟨[], [], none⟩ [] ({ binary := some "p" } : Asked).request := by
  have hfails : ({} : Asked).Fails garbledProject ⟨[], [], none⟩ [] :=
    .manifest isWorkDir_garbledProject rfl defaultBinary_garbledProject
  have hnamed : ({ binary := some "p" } : Asked).binaryName? [] ≠ none := by decide
  exact ⟨(load_iff_answers _ _ _ _).1.mpr hfails, hnamed, (load_iff_answers _ _ _ _).2.2 hnamed⟩

end HotPath
