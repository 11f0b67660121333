import HotPath.Proofs.CommandLine.Reading
import HotPath.Proofs.FileSystem.Resolving
import HotPath.Proofs.Loading
import HotPath.Proofs.Program

/-!
# Mistakes in the use of the program

A line that cannot be read, or that no configuration can be loaded for, is shown as a mistake in the
use of the command: the program says so on standard error, ends with the status 2 and does nothing
else (`endsInUsageError_of_unusable`). Some reasons for having no configuration escape that, each
with a cause of its own (`Escapes`, `escapes_of_load`): they end the program as a fault
(`exec_program_of_escapes`), so that the two kinds are told apart exactly (`endsInUsageError_iff`).

A manifest whose package has something else than a text for a name is no mistake at all. It counts
as a manifest without a name, and the command is run (`not_forall_endsInUsageError`).
-/

namespace HotPath

open FileSystem CommandLine Run

/-! ## Manifests -/

/-- The manifest at a directory can be read and has the value as its package. -/
def HasPackage (v : View) (workDir : Path) (package : Toml.Value) : Prop :=
  ∃ content text root, v.read? (workDir.child manifestName) = .ok (some content) ∧
    Text.Utf8.decode content = .ok text ∧ Toml.read text = .ok root ∧
    root.lookup "package" = some package

/-- The table has no text as a name, but for the empty one. -/
def NamesNoProgram (package : Toml.Table) : Prop :=
  ∀ name, package.lookup "name" = some (.string name) → name = ""

theorem packageName?_of_namesNoProgram {package : Toml.Table} (h : NamesNoProgram package) :
    packageName? package = none := by
  unfold packageName?
  split
  · rename_i name hname
    rw [if_pos (h name hname)]
  · rfl

/-- A package without a usable name counts as if there were no manifest. -/
theorem defaultBinary_of_namesNoProgram {v : View} {workDir : Path} {package : Toml.Table}
    (hpackage : HasPackage v workDir (.table package)) (hname : NamesNoProgram package) :
    defaultBinary v workDir = .ok workDir.name := by
  obtain ⟨content, text, root, hread, htext, hroot, hlookup⟩ := hpackage
  have hpackage : manifestPackage? content = .ok none := by
    refine bind_eq_ok_iff.mpr ⟨text, mapError_eq_ok_iff.mpr htext,
      bind_eq_ok_iff.mpr ⟨root, mapError_eq_ok_iff.mpr hroot, ?_⟩⟩
    rw [hlookup]
    exact congrArg _ (packageName?_of_namesNoProgram hname)
  rw [defaultBinary, hread]
  change (do return (← manifestPackage? content).getD workDir.name) = _
  rw [hpackage]
  rfl

theorem chooseBinary_of_namesNoProgram {v : View} {workDir : Path} {package : Toml.Table}
    (hpackage : HasPackage v workDir (.table package)) (hname : NamesNoProgram package)
    (vars : Variables) (asked : Setting String) :
    chooseBinary v vars asked workDir =
      .ok (((asked.value?.bind nonempty?).or
        ((vars.lookup binaryVariable).bind nonempty?)).getD workDir.name) := by
  unfold chooseBinary
  split
  · rename_i name hchosen
    rw [hchosen]
    rfl
  · rename_i hchosen
    rw [hchosen]
    exact defaultBinary_of_namesNoProgram hpackage hname

/-! ## Causes that are no mistakes in the use -/

/-- The path starts with `~` and the name of an account without a home directory. -/
def StartsAtNoHome (e : Environment) (p : Path) : Prop :=
  ∃ account rest, p = ⟨.relative, String.ofList ('~' :: account) :: rest⟩ ∧
    ∀ home, e.home? (.ofList account) = some home → home.toList.head? = some '~'

/-- A reason why there is no configuration that is not taken for a mistake in the use of the
command, with its cause. -/
inductive Escapes (v : View) (e : Environment) (r : Request) : LoadError → Prop where
  | unknownHome {text : String} :
      r.workDir = .value text → StartsAtNoHome e (.parse text) →
        Escapes v e r (.workDir .unknownHome)
  | removed : v.workingDirectory? = none → Escapes v e r (.workDir .noWorkingDirectory)
  | linkLoop {p resolved : Path} :
      askedPath v e r.workDir.value? = .ok p → v.resolve p = .error (.linkLoop resolved.text) →
        v.stat .find resolved = .error .tooManyLinks →
        Escapes v e r (.workDir (.linkLoop resolved.text))
  | tooLong {p resolved : Path} :
      askedPath v e r.workDir.value? = .ok p → v.resolve p = .ok resolved →
        v.stat .find resolved = .error .nameTooLong →
        Escapes v e r (.workDir (.file ⟨.nameTooLong, resolved.text⟩))
  | manifestTooLong {workDir : Path} :
      findWorkDir v e r.workDir.value? = .ok workDir →
        v.stat .find (workDir.child manifestName) = .error .nameTooLong →
        Escapes v e r (.manifest (.file ⟨.nameTooLong, (workDir.child manifestName).text⟩))
  | package {workDir : Path} {value : Toml.Value} :
      findWorkDir v e r.workDir.value? = .ok workDir → HasPackage v workDir value →
        (∀ package, value ≠ .table package) →
        Escapes v e r (.manifest (.packageNotATable value.kind))
  | workDirWithoutValue : r.workDir = .empty → Escapes v e r (.noValue .workDir)
  | argumentsWithoutValue :
      .empty ∈ [r.samplingArgs, r.instrumentationArgs, r.rendererArgs, r.annotateArgs] →
        Escapes v e r (.noValue .arguments)
  | sourceDirWithoutValue : r.sourceDir = .empty → Escapes v e r (.noValue .sourceDir)
  | topCountWithoutValue : r.topCount = .empty → Escapes v e r (.noValue .topCount)

variable {v : View} {e : Environment} {vars : Variables} {r : Request} {reason : LoadError}

theorem Escapes.not_usage (h : Escapes v e r reason) : reason.isUsage = false := by
  cases h <;> rfl

/-- Why no home directory can be put in the place of a `~`. -/
theorem cases_of_expandHome_error {p : Path} {problem : WorkDirError}
    (h : e.expandHome p = .error problem) :
    problem = .nulCharacter ∨ (problem = .unknownHome ∧ StartsAtNoHome e p) := by
  unfold Environment.expandHome at h
  split at h
  · rename_i name rest hrelative hnames
    split at h
    · rename_i account hname
      have hroot : p.root = .relative := by simpa [Path.isAbsolute] using hrelative
      have hp : p = ⟨.relative, String.ofList ('~' :: account) :: rest⟩ := by
        rw [← hname, String.ofList_toList, ← hroot, ← hnames]
      split at h
      · cases h
        exact .inl rfl
      · split at h
        · rename_i hhome
          cases h
          refine .inr ⟨rfl, account, rest, hp, fun home hsome => ?_⟩
          rw [hhome] at hsome
          cases hsome
        · rename_i home hhome
          split at h
          · rename_i htilde
            cases h
            refine .inr ⟨rfl, account, rest, hp, fun home' hsome => ?_⟩
            rw [hhome] at hsome
            rw [← Option.some.inj hsome]
            exact htilde
          · cases h
    · cases h
  · cases h

theorem escapes_of_askedPath {reason : WorkDirError}
    (h : askedPath v e r.workDir.value? = .error reason)
    (husage : (LoadError.workDir reason).isUsage = false) :
    Escapes v e r (.workDir reason) := by
  unfold askedPath at h
  split at h
  · rename_i text hasked
    have htext : r.workDir = .value text := by
      cases hworkDir : r.workDir with
      | value text' =>
        rw [hworkDir] at hasked
        rw [Option.some.inj hasked]
      | missing | empty =>
        rw [hworkDir] at hasked
        cases hasked
    rcases cases_of_expandHome_error h with rfl | ⟨rfl, hhome⟩
    · cases husage
    · exact .unknownHome htext hhome
  · cases h
  · rename_i hremoved
    cases h
    exact .removed hremoved

theorem escapes_of_findWorkDir {reason : WorkDirError}
    (h : findWorkDir v e r.workDir.value? = .error reason)
    (husage : (LoadError.workDir reason).isUsage = false) :
    Escapes v e r (.workDir reason) := by
  rcases bind_eq_error_iff.mp h with hasked | ⟨p, hasked, h⟩
  · exact escapes_of_askedPath hasked husage
  rcases bind_eq_error_iff.mp h with hresolve | ⟨resolved, hresolve, h⟩
  · obtain ⟨problem, hproblem, rfl⟩ := mapError_eq_error_iff.mp hresolve
    rcases cases_of_resolve_error hproblem with rfl | ⟨rfl, hremoved⟩ | ⟨resolved, rfl, hstat⟩
    · cases husage
    · exact .removed hremoved
    · exact .linkLoop hasked hproblem hstat
  rcases bind_eq_error_iff.mp h with hdir | ⟨there, -, h⟩
  · obtain ⟨problem, hproblem, rfl⟩ := mapError_eq_error_iff.mp hdir
    obtain ⟨hstat, rfl⟩ := stat_of_find_error (map_eq_error_iff.mp hproblem)
    exact .tooLong hasked (mapError_eq_ok_iff.mp hresolve) hstat
  · cases there with
    | true => cases h
    | false =>
      cases h
      cases husage

theorem escapes_of_manifestPackage {workDir : Path} {content : Bytes} {reason : ManifestError}
    (hdir : findWorkDir v e r.workDir.value? = .ok workDir)
    (hread : v.read? (workDir.child manifestName) = .ok (some content))
    (h : manifestPackage? content = .error reason)
    (husage : (LoadError.manifest reason).isUsage = false) :
    Escapes v e r (.manifest reason) := by
  unfold manifestPackage? at h
  rcases bind_eq_error_iff.mp h with htext | ⟨text, htext, h⟩
  · obtain ⟨stretch, -, rfl⟩ := mapError_eq_error_iff.mp htext
    cases husage
  rcases bind_eq_error_iff.mp h with hroot | ⟨root, hroot, h⟩
  · obtain ⟨problem, -, rfl⟩ := mapError_eq_error_iff.mp hroot
    cases husage
  split at h
  · cases h
  · cases h
  · rename_i value hvalue hlookup
    cases h
    exact .package hdir ⟨content, text, root, hread, mapError_eq_ok_iff.mp htext,
      mapError_eq_ok_iff.mp hroot, hlookup⟩ hvalue

theorem escapes_of_chooseBinary {workDir : Path} {reason : ManifestError}
    (hdir : findWorkDir v e r.workDir.value? = .ok workDir)
    (h : chooseBinary v vars r.binary workDir = .error reason)
    (husage : (LoadError.manifest reason).isUsage = false) :
    Escapes v e r (.manifest reason) := by
  unfold chooseBinary at h
  split at h
  · cases h
  rcases bind_eq_error_iff.mp h with hread | ⟨found, hread, h⟩
  · obtain ⟨problem, hproblem, rfl⟩ := mapError_eq_error_iff.mp hread
    obtain ⟨hstat, rfl⟩ := stat_of_find_error (map_eq_error_iff.mp hproblem)
    exact .manifestTooLong hdir hstat
  · have hread := mapError_eq_ok_iff.mp hread
    cases found with
    | none => cases h
    | some content =>
      rcases bind_eq_error_iff.mp h with hpackage | ⟨name, -, h⟩
      · exact escapes_of_manifestPackage hdir hread hpackage husage
      · cases h

/-- Whatever reason is not taken for a mistake in the use has its cause. -/
theorem escapes_of_load (h : Config.load v e vars r = .error reason)
    (husage : reason.isUsage = false) : Escapes v e r reason := by
  cases lacks_of_load h with
  | workDirValue hempty => exact .workDirWithoutValue hempty
  | workDir hdir => exact escapes_of_findWorkDir hdir husage
  | manifest hdir hbinary => exact escapes_of_chooseBinary hdir hbinary husage
  | argumentsValue hempty => exact .argumentsWithoutValue hempty
  | sourceDirValue hempty => exact .sourceDirWithoutValue hempty
  | topCountValue hempty => exact .topCountWithoutValue hempty
  | arguments | sourceDir | topCount => cases husage

/-! ## How the program ends -/

/-- The program shows a mistake in the use of the command, with the status 2, and does nothing
else. -/
def EndsInUsageError (line : List String) (m : Machine) : Prop :=
  ∃ scope reason, (Run.program line).exec m =
    (.ok (.stopped 2), { m with err := m.err ++ (Stop.error scope reason).err })

/-- No command can be run: the line cannot be read, or no configuration can be loaded. -/
inductive Unusable (line : List String) (m : Machine) : Prop where
  | line {scope : Scope} {reason : UsageError} :
      Invocation.parse line = .error (.error scope reason) → Unusable line m
  | config {i : Invocation} {reason : LoadError} :
      Invocation.parse line = .ok i → i.config m = .error reason → Unusable line m

section Program

variable {line : List String} {m : Machine} {i : Invocation}

theorem exec_stop_error (scope : Scope) (reason : UsageError) (m : Machine) :
    (Run.stop (.error scope reason)).exec m =
      (.ok (.stopped 2), { m with err := m.err ++ (Stop.error scope reason).err }) := by
  have hout : m.out ++ (Stop.error scope reason).out = m.out := String.append_empty
  rw [exec_stop, hout]
  rfl

/-- A reason that is not taken for a mistake in the use ends the program as a fault, before anything
is done. -/
theorem exec_program_of_escapes (hparse : Invocation.parse line = .ok i)
    (hconfig : i.config m = .error reason) (h : Escapes m.view m.environment i.request reason) :
    (Run.program line).exec m = (.error (.load reason), m) := by
  rw [exec_program_of_config_error hparse hconfig, if_neg (by simp [h.not_usage])]

theorem endsInUsageError_of_not_escapes (hparse : Invocation.parse line = .ok i)
    (hconfig : i.config m = .error reason)
    (h : ¬ Escapes m.view m.environment i.request reason) : EndsInUsageError line m := by
  have husage : reason.isUsage = true := by
    by_contra hno
    exact h (escapes_of_load hconfig (by simpa using hno))
  refine ⟨none, .noConfiguration reason, ?_⟩
  rw [exec_program_of_config_error hparse hconfig, if_pos husage, exec_stop_error]

theorem not_endsInUsageError_of_config {c : Config} (hparse : Invocation.parse line = .ok i)
    (hconfig : i.config m = .ok c) : ¬ EndsInUsageError line m := by
  rintro ⟨scope, reason, hends⟩
  rw [exec_program_of_config hparse hconfig] at hends
  have hending := congrArg Prod.fst hends
  revert hending
  rcases ((i.pipeline c).exec m).1 with fault | status <;> exact nofun

/-- What leaves no command to run ends in a usage error exactly if the reason for it is none of
those that escape. -/
theorem endsInUsageError_iff (h : Unusable line m) :
    EndsInUsageError line m ↔ ∀ i reason, Invocation.parse line = .ok i →
      i.config m = .error reason → ¬ Escapes m.view m.environment i.request reason := by
  constructor
  · rintro ⟨scope, problem, hends⟩ i reason hparse hconfig hescapes
    rw [exec_program_of_escapes hparse hconfig hescapes] at hends
    cases hends
  · intro hnone
    cases h with
    | @line scope reason hparse =>
      refine ⟨scope, reason, ?_⟩
      rw [exec_program_of_stop hparse, exec_stop_error]
    | config hparse hconfig =>
      exact endsInUsageError_of_not_escapes hparse hconfig (hnone _ _ hparse hconfig)

/-- **Mistakes in the use.** Whatever line, files and environment leave no command to run, the
program says so and does nothing else, unless the reason is one of those that escape. A package
without a usable name is no such reason: the program is named as without a manifest. -/
theorem endsInUsageError_of_unusable (line : List String) (m : Machine) :
    (Unusable line m →
      (∀ i reason, Invocation.parse line = .ok i → i.config m = .error reason →
        ¬ Escapes m.view m.environment i.request reason) →
      EndsInUsageError line m) ∧
    ∀ i workDir package, Invocation.parse line = .ok i →
      findWorkDir m.view m.environment i.request.workDir.value? = .ok workDir →
      HasPackage m.view workDir (.table package) → NamesNoProgram package →
        (∀ reason, i.config m ≠ .error (.manifest reason)) ∧
        ∀ c, i.config m = .ok c →
          c.binary = ((i.request.binary.value?.bind nonempty?).or
            ((m.environment.bindings.lookup binaryVariable).bind nonempty?)).getD workDir.name := by
  refine ⟨fun hunusable hnone => (endsInUsageError_iff hunusable).mpr hnone, ?_⟩
  intro i workDir package hparse hdir hpackage hname
  have hbinary := chooseBinary_of_namesNoProgram hpackage hname m.environment.bindings
    i.request.binary
  refine ⟨fun reason hconfig => ?_, fun c hconfig => ?_⟩
  · cases lacks_of_load hconfig with
    | manifest hdir' hproblem =>
      obtain rfl := Except.ok.inj (hdir.symm.trans hdir')
      rw [hbinary] at hproblem
      cases hproblem
  · have hanswers := answersTo_of_load hconfig
    obtain rfl : workDir = c.workDir := Except.ok.inj (hdir.symm.trans hanswers.workDir)
    exact Except.ok.inj (hanswers.binary.symm.trans hbinary)

/-- A machine where the manifest gives the program a number for a name. -/
def numberedMachine : Machine :=
  .bare (View.empty.insert ["Cargo.toml"] (.file (Text.Utf8.encode "package.name=1") false)
    (by decide +kernel))

theorem hasPackage_numberedMachine :
    HasPackage numberedMachine.view ⟨.slash, []⟩ (.table [("name", .integer "1")]) := by
  have hlocate : numberedMachine.view.locate .find
      ((⟨.slash, []⟩ : Path).child manifestName) = .ok ⟨["Cargo.toml"], 0⟩ := by
    cbv
  have hread : Toml.read "package.name=1".toList =
      .ok [("package", .table [("name", .integer "1")])] := by
    cbv
  refine ⟨Text.Utf8.encode "package.name=1", "package.name=1".toList, _, ?_, ?_, hread, rfl⟩
  · rw [View.read?, View.find, if_neg (by decide +kernel), View.stat, hlocate]
    rfl
  · decide +kernel

theorem namesNoProgram_numberedMachine : NamesNoProgram [("name", .integer "1")] := by
  intro name hname
  cases hname

theorem findWorkDir_numberedMachine :
    findWorkDir numberedMachine.view numberedMachine.environment none = .ok ⟨.slash, []⟩ := by
  cbv

/-- On this machine a request fails only for what is asked for besides the name. -/
theorem load_numberedMachine (topCount : Setting Int) :
    Config.load numberedMachine.view numberedMachine.environment
        numberedMachine.environment.bindings { topCount } =
      (chooseTopCount topCount 10).map fun topCount =>
        { workDir := ⟨.slash, []⟩, binary := "", topCount } := by
  have hbinary := chooseBinary_of_namesNoProgram hasPackage_numberedMachine
    namesNoProgram_numberedMachine [] .missing
  unfold Config.load
  rw [if_neg (by simp)]
  change ((findWorkDir numberedMachine.view numberedMachine.environment none).mapError
    LoadError.workDir >>= _) = _
  rw [findWorkDir_numberedMachine]
  change ((chooseBinary numberedMachine.view [] .missing ⟨.slash, []⟩).mapError
    LoadError.manifest >>= _) = _
  rw [hbinary]
  rfl

theorem endsInUsageError_numbered :
    let line := [Command.annotate.name, spelled .topCount "0"]
    let i : Invocation := { command := .annotate, request := { topCount := .value 0 } }
    Invocation.parse line = .ok i ∧ i.config numberedMachine = .error (.topCountTooSmall 0) ∧
      EndsInUsageError line numberedMachine ∧
      ∀ reason, i.config numberedMachine ≠ .error (.manifest reason) := by
  intro line i
  have hparse : Invocation.parse line = .ok i := by
    refine Invocation.parse_eq_ok_iff.mpr ⟨?_, [.flag .topCount (some "0")], ?_, ?_⟩
    · simpa using (spelled_ne_endOfFlags .topCount "0").symm
    · rw [List.mapM_cons, read_spelled (by decide)]
      rfl
    · cbv
  have hconfig : i.config numberedMachine = .error (.topCountTooSmall 0) :=
    load_numberedMachine (.value 0)
  obtain ⟨husage, hnameless⟩ := endsInUsageError_of_unusable line numberedMachine
  refine ⟨hparse, hconfig, husage (.config hparse hconfig) ?_, ?_⟩
  · intro i' reason hparse' hconfig' hescapes
    obtain rfl := Except.ok.inj (hparse.symm.trans hparse')
    rw [hconfig] at hconfig'
    cases hconfig'
    cases hescapes
  · exact (hnameless i _ _ hparse findWorkDir_numberedMachine hasPackage_numberedMachine
      namesNoProgram_numberedMachine).1

/-- A name that is no text does not end the program: the directory is cleaned. -/
theorem not_forall_endsInUsageError :
    ¬ ∀ (line : List String) (m : Machine) (i : Invocation) (workDir : Path)
      (package : Toml.Table) (name : Toml.Value), Invocation.parse line = .ok i →
      findWorkDir m.view m.environment i.request.workDir.value? = .ok workDir →
      HasPackage m.view workDir (.table package) → package.lookup "name" = some name →
      (∀ text, name ≠ .string text) → EndsInUsageError line m := by
  intro h
  have hparse : Invocation.parse [Command.clean.name] = .ok { command := .clean } := by cbv
  have hname : ∀ text, Toml.Value.integer "1" ≠ .string text := by simp
  have hconfig : Invocation.config { command := .clean } numberedMachine =
      .ok { workDir := ⟨.slash, []⟩, binary := "" } := load_numberedMachine .missing
  exact not_endsInUsageError_of_config hparse hconfig
    (h _ _ _ _ _ (.integer "1") hparse findWorkDir_numberedMachine hasPackage_numberedMachine rfl
      hname)

end Program

end HotPath
