import HotPath.Proofs.Spellings
import HotPath.Proofs.WorkDir

/-!
# Where the program is looked for

The program is to stand in the directory of the release build. Its name is joined to that directory
as a path is, so it can lead out of it: a name that starts at the top stands for itself, `..` leads
up, and a name without components is the directory itself. `LeadsBelow` says which names do none of
this, and `program_isBelow_iff` that these are the names whose program stands in the directory. The
name of the work directory is one of them, unless that is the top, which has none.
-/

namespace HotPath

open FileSystem

/-! ## Paths below a directory -/

/-- Some names lead on from the directory to the path, and none of them leads up. -/
def Path.IsBelow (p directory : Path) : Prop :=
  ∃ names, names ≠ [] ∧ ".." ∉ names ∧ p = ⟨directory.root, directory.names ++ names⟩

/-- The name stays in the directory: its components lead on from there and never up. If it starts at
the top, they lead through the directory first. -/
def LeadsBelow (directory : Path) (name : String) : Prop :=
  if startsAtTop name = true then
    ∃ names, names ≠ [] ∧ ".." ∉ names ∧ Path.rootOf name.toList = directory.root ∧
      components name.toList = directory.names ++ names
  else components name.toList ≠ [] ∧ ".." ∉ components name.toList

theorem Path.isAbsolute_parse (text : String) : (parse text).isAbsolute = startsAtTop text := by
  unfold isAbsolute parse startsAtTop
  cases text.toList with
  | nil => rfl
  | cons c rest =>
    by_cases hc : c = '/'
    · subst hc
      unfold rootOf
      split <;> simp_all
    · have hroot : rootOf (c :: rest) = .relative := by
        unfold rootOf
        split <;> simp_all
      simp [hroot, hc]

theorem Path.isBelow_join_iff {directory : Path} {name : String} :
    (directory.join name).IsBelow directory ↔ LeadsBelow directory name := by
  rw [join, append, isAbsolute_parse, LeadsBelow, ← namesOf_eq_components]
  by_cases htop : startsAtTop name = true
  · rw [if_pos htop, if_pos htop]
    refine exists_congr fun names => and_congr_right fun _ => and_congr_right fun _ => ?_
    rw [parse, Path.mk.injEq]
  · rw [if_neg htop, if_neg htop]
    constructor
    · rintro ⟨names, hne, hup, heq⟩
      obtain rfl : namesOf name.toList = names :=
        List.append_cancel_left (congrArg Path.names heq)
      exact ⟨hne, hup⟩
    · rintro ⟨hne, hup⟩
      exact ⟨_, hne, hup, rfl⟩

/-- A single name other than `..` leads on. -/
theorem leadsBelow_of_isPlainName (directory : Path) {name : String} (hname : Path.IsPlainName name)
    (hup : name ≠ "..") : LeadsBelow directory name := by
  have hall : ∀ n ∈ [name], Path.IsPlainName n := List.forall_mem_singleton.mpr hname
  have hnames : Path.namesOf name.toList = [name] := by
    have hread := Path.namesOf_intercalate hall
    rwa [String.intercalate_singleton] at hread
  have htop : startsAtTop name ≠ true := by
    have hhead := Path.head?_plain hall
    rw [String.intercalate_singleton] at hhead
    simpa [startsAtTop] using hhead
  rw [LeadsBelow, if_neg htop, ← namesOf_eq_components, hnames]
  exact ⟨List.cons_ne_nil _ _, fun hmem => hup (List.mem_singleton.mp hmem).symm⟩

theorem not_leadsBelow_empty (directory : Path) : ¬ LeadsBelow directory "" := by
  intro h
  have htop : startsAtTop "" ≠ true := by decide
  rw [LeadsBelow, if_neg htop] at h
  exact h.1 (by decide)

/-! ## The name of the program -/

/-- The name that the manifest gives the program, if there is a manifest with a name. -/
def namedByManifest (v : View) (workDir : Path) : Except ManifestError (Option String) := do
  match ← (v.read? (workDir.child manifestName)).mapError .file with
  | none => return none
  | some content => manifestPackage? content

theorem defaultBinary_eq (v : View) (workDir : Path) :
    defaultBinary v workDir = (namedByManifest v workDir).map (·.getD workDir.name) := by
  unfold defaultBinary namedByManifest
  rw [map_bind_eq]
  refine congrArg _ (funext fun read => ?_)
  cases read with
  | none => rfl
  | some content => rfl

/-- The name that the program is given: by its option, else by its variable, else by the
manifest. -/
def Request.programName? (r : Request) (v : View) (vars : Variables) (workDir : Path) :
    Except ManifestError (Option String) :=
  match firstNonempty [r.binary.value?, vars.lookup binaryVariable] with
  | some name => .ok (some name)
  | none => namedByManifest v workDir

/-- A program without a name of its own is named as the work directory. -/
theorem chooseBinary_eq_map (v : View) (vars : Variables) (r : Request) (workDir : Path) :
    chooseBinary v vars r.binary workDir
      = (r.programName? v vars workDir).map (·.getD workDir.name) := by
  rw [chooseBinary, Request.programName?, firstNonempty_pair]
  cases (r.binary.value?.bind nonempty?).or ((vars.lookup binaryVariable).bind nonempty?) with
  | some name => rfl
  | none => exact defaultBinary_eq v workDir

/-! ## The program -/

/-- The directory of the release build. -/
def Config.release (c : Config) : Path := (c.workDir.child "target").child "release"

theorem Config.program_eq (c : Config) : c.program = c.release.join c.binary := by
  have hparse : Path.parse releaseDirectory = ⟨.relative, ["target", "release"]⟩ := by decide
  have hrelease : c.workDir.join releaseDirectory = c.release := by
    rw [Path.join, hparse, release, Path.child, Path.child, List.append_assoc]
    rfl
  rw [program, hrelease]

theorem leadsBelow_name_iff {workDir : Path} (h : IsResolved workDir) (directory : Path) :
    LeadsBelow directory workDir.name ↔ workDir.names ≠ [] := by
  rw [Path.name]
  constructor
  · intro hbelow hnames
    rw [hnames] at hbelow
    exact not_leadsBelow_empty directory hbelow
  · intro hnames
    rw [List.getLastD_eq_getLast?, List.getLast?_eq_some_getLast hnames, Option.getD_some]
    obtain ⟨hplain, hup⟩ := h.names _ (List.getLast_mem hnames)
    exact leadsBelow_of_isPlainName directory hplain hup

/-- **The program of the build.** The program of a loaded configuration stands in the directory of
the release build exactly if the name that it is given stays in there; without such a name, exactly
if the work directory has one. -/
theorem program_isBelow_iff {v : View} {e : Environment} {vars : Variables} {r : Request}
    {c : Config} (h : Config.load v e vars r = .ok c) :
    ∃ name?, r.programName? v vars c.workDir = .ok name? ∧
      (c.program.IsBelow c.release ↔
        match name? with
        | some name => LeadsBelow c.release name
        | none => c.workDir.names ≠ []) := by
  have hanswers := answersTo_of_load h
  obtain ⟨path, hpath, hresolve, -⟩ := findWorkDir_eq_ok_iff.mp hanswers.workDir
  have hresolved := View.isResolved_resolve (isPlain_askedPath hpath) hresolve
  have hbinary := hanswers.binary
  rw [chooseBinary_eq_map] at hbinary
  obtain ⟨name?, hname, hbinary⟩ := map_eq_ok_iff.mp hbinary
  refine ⟨name?, hname, ?_⟩
  rw [c.program_eq, Path.isBelow_join_iff, ← hbinary]
  cases name? with
  | some name => rfl
  | none => exact leadsBelow_name_iff hresolved _

theorem load_bare_value {name : String} (hname : name ≠ "") :
    Config.load bareMachine.view bareMachine.environment bareMachine.environment.bindings
      { binary := .value name } = .ok { bareConfig with binary := name } := by
  have hdir : findWorkDir bareMachine.view bareMachine.environment none = .ok ⟨.slash, []⟩ := by cbv
  have hbinary : chooseBinary bareMachine.view bareMachine.environment.bindings (.value name)
      ⟨.slash, []⟩ = .ok name := by
    rw [chooseBinary, Setting.value?, Option.bind_some, nonempty?, if_neg hname]
    rfl
  exact load_eq_ok_iff.mpr ⟨by simp, hdir, hbinary, rfl, rfl, rfl, rfl, rfl, rfl, rfl⟩

theorem program_isBelow_bare :
    Config.load bareMachine.view bareMachine.environment
        bareMachine.environment.bindings { binary := .value "p" } = .ok bareConfig ∧
      bareConfig.program = ⟨.slash, ["target", "release", "p"]⟩ ∧
      bareConfig.program.IsBelow bareConfig.release := by
  obtain ⟨name?, hname, hbelow⟩ := program_isBelow_iff load_bare
  obtain rfl : some "p" = name? := Except.ok.inj hname
  refine ⟨load_bare, by decide, hbelow.mpr ?_⟩
  exact leadsBelow_of_isPlainName _ ⟨by decide, by decide⟩ (by decide)

/-- A name that starts at the top stands for itself. -/
theorem not_forall_program_isBelow :
    ¬ ∀ (v : View) (e : Environment) (vars : Variables) (r : Request) (c : Config),
      Config.load v e vars r = .ok c → c.program.IsBelow c.release := by
  intro h
  have hload := load_bare_value (show "/tmp" ≠ "" by decide)
  obtain ⟨names, -, -, heq⟩ := h _ _ _ _ _ hload
  have hprogram : Config.program { bareConfig with binary := "/tmp" } = ⟨.slash, ["tmp"]⟩ := by
    decide
  have hnames := congrArg Path.names (hprogram.symm.trans heq)
  exact absurd (List.cons.inj hnames).1 (by decide)

end HotPath
