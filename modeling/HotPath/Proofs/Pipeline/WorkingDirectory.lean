import HotPath.CommandLine.Program
import HotPath.Proofs.FileSystem.WorkingDirectory
import HotPath.Proofs.Machine.Related
import HotPath.Proofs.Prerequisites

/-!
# Running a pipeline from elsewhere

A configuration names its work directory by an absolute path, and every tool is started there. So it
makes no difference where the program itself works, but for one look-up: a check looks for a tool
that is named by a relative text from where the program works, although a stage starts it in the
work directory. When a check depends on this is stated exactly (`agree_elsewhere_iff`); it does not
if every search for a tool starts from the top (`agree_of_looksFromTop`).
-/

namespace HotPath

open FileSystem Glob Run

/-! ## Machines that differ in the working directory -/

/-- The same machine, where the program works at `cwd`. -/
def Machine.workingAt (m : Machine) (cwd : Place) : Machine :=
  { m with view := m.view.workingAt cwd }

/-- The machines are the same but for the place where the program works. -/
def Machine.Alike (m m' : Machine) : Prop := m' = m.workingAt m'.view.cwd

namespace Machine

variable {m m' : Machine}

theorem alike_workingAt (m : Machine) (cwd : Place) : m.Alike (m.workingAt cwd) := by
  have hview := (m.view.sameTree_workingAt cwd).eq_workingAt
  exact congrArg (fun v => ({ m with view := v } : Machine)) hview

theorem Alike.sameTree (h : m.Alike m') : m.view.SameTree m'.view := by
  rw [h]
  exact m.view.sameTree_workingAt _

end Machine

theorem respects_make (change : Change) : Respects View.SameTree change.make := by
  cases change with
  | put names entry => exact Edit.respects_put names entry
  | remove names => exact Edit.respects_remove names

/-- A tool does the same, wherever the program that starts it works. -/
theorem Machine.alike_eq_related : Machine.Alike = Machine.Related View.SameTree := by
  funext m m'
  refine propext ⟨fun h => ⟨?_, h.sameTree, fun r _ => ?_⟩, fun h => ?_⟩
  · rw [h]
    rfl
  · exact Respects.forM fun change _ => respects_make change
  · rw [Machine.Alike, Machine.workingAt, ← View.SameTree.eq_workingAt h.files]
    exact h.rest

/-! ## Searching for outputs -/

section Search

variable {v v' : View} (h : v.SameTree v') {p : Path} (hp : p.isAbsolute = true)

include h hp

theorem leadsOn_sameTree (name : String) (entry : Entry) :
    leadsOn v' p name entry = leadsOn v p name entry := by
  cases entry with
  | link target => rw [leadsOn, leadsOn, h.isDirectory (p := p.child name) hp]
  | file | directory => rfl

theorem follow_sameTree (directories : Bool) (steps : List Step) :
    follow v' v'.isFile directories steps p = follow v v.isFile directories steps p := by
  induction steps generalizing p with
  | nil => rw [follow, follow, h.isFile hp]
  | cons step rest ih =>
    cases step with
    | exactly name =>
      have hchild : (p.child name).isAbsolute = true := hp
      rw [follow_exactly, follow_exactly, h.isPresent hchild, h.isDirectory hchild, ih hchild]
    | covering pieces =>
      have hentry : followEntry v' v'.isFile directories pieces rest p =
          followEntry v v.isFile directories pieces rest p := by
        funext member
        rw [followEntry, followEntry, leadsOn_sameTree h hp, ih (p := p.child member.1) hp]
      rw [follow_covering, follow_covering, h.list hp, hentry]
    | descend =>
      have hbelow (q : Path) (hq : q.isAbsolute = true) :
          followBelow v' v'.isFile directories rest q =
            followBelow v v.isFile directories rest q := by
        have hlead : (fun member : String × Entry =>
              Functor.discard (leadsOn v' q member.1 member.2)) =
            fun member => Functor.discard (leadsOn v q member.1 member.2) := by
          funext member
          rw [leadsOn_sameTree h hq]
        rw [followBelow, followBelow, ih hq, h.list hq]
        simp only [hlead]
      rw [follow_descend, follow_descend, h.directoriesBelow hp]
      dsimp only
      rw [mapM_congr (f := followBelow v' v'.isFile directories rest)
        (g := followBelow v v.isFile directories rest)]
      intro q hq
      rcases List.mem_cons.mp hq with rfl | hq
      · exact hbelow q hp
      · obtain ⟨names, -, rfl⟩ := List.mem_map.mp (List.mem_mergeSort.mp hq)
        exact hbelow _ hp

theorem filesFound_sameTree (pattern : PathPattern) :
    filesFound v' p pattern = filesFound v p pattern := by
  rw [filesFound, filesFound, search, search, h.isDirectory hp,
    follow_sameTree h hp pattern.directories]

theorem outputs_sameTree (pattern : String) : outputs v' p pattern = outputs v p pattern := by
  rw [outputs, outputs]
  cases PathPattern.parse pattern with
  | error reason => rfl
  | ok pattern =>
    exact congrArg (Except.mapError OutputsError.file) (filesFound_sameTree h hp pattern)

end Search

/-- A pattern leads to absolute paths from an absolute one. -/
theorem Glob.Leads.root {v : View} {directories : Bool} {steps : List Step} {p q : Path}
    (h : Leads v directories steps p q) : q.root = p.root := by
  induction h with
  | here => rfl
  | exactly _ _ ih => exact ih
  | covering _ _ _ _ _ ih => exact ih
  | descend _ _ ih => exact ih

theorem isAbsolute_of_mem_outputs {v : View} {workDir : Path} {pattern : String}
    {files : List Path} (h : outputs v workDir pattern = .ok files)
    (hworkDir : workDir.isAbsolute = true) {p : Path} (hp : p ∈ files) : p.isAbsolute = true := by
  obtain ⟨pattern, -, hfound⟩ := bind_eq_ok_iff.mp h
  obtain ⟨-, hleads, -⟩ := (mem_filesFound_iff (mapError_eq_ok_iff.mp hfound)).mp hp
  rw [Path.isAbsolute, hleads.root]
  exact hworkDir

/-! ## Pipelines -/

namespace Run

open Machine

variable {p : Path} {c : Config}

theorem respects_writeFile_absolute (hp : p.isAbsolute = true) (content : Bytes) :
    Respects (Related View.SameTree) (writeFile p content) :=
  respects_writeFile fun _ _ h => matching_of_map_tree (h.write hp content)

theorem respects_deleteFile_absolute (hp : p.isAbsolute = true) :
    Respects (Related View.SameTree) (deleteFile p) :=
  respects_deleteFile fun _ _ h => matching_of_map_tree (h.unlink hp)

section WorkDir

variable (hc : c.workDir.isAbsolute = true)

include hc

theorem respects_findOutputs_absolute (pattern : String) :
    Respects (Related View.SameTree) (findOutputs c.workDir pattern) :=
  respects_findOutputs fun _ _ h => outputs_sameTree h hc pattern

theorem respects_discardOutputs_absolute (pattern : String) :
    Respects (Related View.SameTree) (discardOutputs c.workDir pattern) :=
  respects_discardOutputs (respects_findOutputs_absolute hc pattern) fun _ _ hfiles _ hq =>
    respects_deleteFile_absolute (isAbsolute_of_mem_outputs hfiles hc hq)

theorem respects_probeWriting :
    Respects (Related View.SameTree) (probeWriting c.workDir) := by
  rw [probeWriting_eq_bind]
  apply respects_get_bind
  intro m m' hm
  have hprocess : m'.process = m.process := by rw [hm.rest]
  rw [hprocess]
  have hp : (c.workDir.child (probeName m.process)).isAbsolute = true := hc
  exact handling_respects.probeAt (respects_writeFile_absolute hp)
    (respects_deleteFile_absolute hp) m m' hm

end WorkDir

/-! ## The check -/

/-- What a check says about the tools. -/
def toolChecks (c : Config) (m : Machine) : List Check :=
  ToolRole.all.map fun r => lookForTool m.view m.environment.searchPath r (c.tools r)

/-- What a check says about the work directory. -/
def projectChecks (c : Config) : Run (List Check) := do
  let manifest ← lift .file (lookForManifest (← get).view c.workDir)
  let writable ← probeWriting c.workDir
  return [manifest, writable]

theorem exec_prerequisites (c : Config) (m : Machine) :
    (prerequisites c).exec m =
      (((projectChecks c).exec m).1.map (toolChecks c m ++ ·), ((projectChecks c).exec m).2) := by
  unfold prerequisites projectChecks
  rw [exec_bind_ok (exec_get m), exec_bind_ok (exec_get m)]
  cases hmanifest : (lift Fault.file (lookForManifest m.view c.workDir)).exec m with
  | mk result after =>
    cases result with
    | error fault =>
      rw [exec_bind_error hmanifest, exec_bind_error hmanifest]
      rfl
    | ok manifest =>
      rw [exec_bind_ok hmanifest, exec_bind_ok hmanifest]
      cases hprobe : (probeWriting c.workDir).exec after with
      | mk result' after' =>
        cases result' with
        | error fault =>
          rw [exec_bind_error hprobe, exec_bind_error hprobe]
          rfl
        | ok writable =>
          rw [exec_bind_ok hprobe, exec_bind_ok hprobe]
          rfl

theorem respects_projectChecks (hc : c.workDir.isAbsolute = true) :
    Respects (Related View.SameTree) (projectChecks c) := by
  apply respects_get_bind
  intro m m' hm
  have hmanifest : lookForManifest m'.view c.workDir = lookForManifest m.view c.workDir := by
    rw [lookForManifest, lookForManifest, hm.files.isFile (p := c.workDir.child _) hc]
  rw [hmanifest]
  have hrest : Respects (Related View.SameTree)
      (lift Fault.file (lookForManifest m.view c.workDir) >>= fun manifest =>
        probeWriting c.workDir >>= fun writable => pure [manifest, writable]) :=
    (respects_lift _ _).bind fun _ => (respects_probeWriting hc).bind fun _ => respects_pure _
  exact hrest m m' hm

/-- Seeing whether files can be written ends in no fault, unless the path can be of no file. -/
theorem exec_probeWriting_ok {workDir : Path} {m : Machine}
    (hnul : hasNul (workDir.child (probeName m.process)) = false) :
    ∃ check m', (probeWriting workDir).exec m = (.ok check, m') := by
  unfold probeWriting
  rw [exec_bind_ok (exec_get m), exec_tryCatch]
  generalize workDir.child (probeName m.process) = q at hnul
  have hwriting := exec_writeFile q probeContent m
  rw [if_neg (by simp [hnul])] at hwriting
  cases hwrite : m.view.write q probeContent with
  | error cause =>
    rw [hwrite] at hwriting
    rw [exec_bind_error hwriting]
    exact ⟨_, _, rfl⟩
  | ok written =>
    rw [hwrite] at hwriting
    rw [exec_bind_ok hwriting]
    have hdeleting := exec_deleteFile q { m with view := written }
    by_cases hrefused : m.refused q = true
    · rw [if_pos hrefused] at hdeleting
      rw [exec_bind_error hdeleting]
      exact ⟨_, _, rfl⟩
    · rw [if_neg hrefused] at hdeleting
      dsimp only at hdeleting
      cases hunlink : written.unlink q with
      | error cause =>
        rw [hunlink] at hdeleting
        rw [exec_bind_error hdeleting]
        exact ⟨_, _, rfl⟩
      | ok deleted =>
        rw [hunlink] at hdeleting
        rw [exec_bind_ok hdeleting]
        exact ⟨_, _, rfl⟩

/-- The line about a check. -/
def checkLine (k : Check) : String := "[" ++ k.status ++ "] " ++ k.name ++ "\n"

/-- What is printed about checks. -/
def checksText (checks : List Check) : String :=
  String.join (checks.map checkLine) ++
    if checks.any (!·.passed) then failuresText checks ++ "\n" else ""

theorem exec_forM_reportLine (checks : List Check) (m : Machine) :
    (checks.forM fun k => reportLine ("[" ++ k.status ++ "] " ++ k.name)).exec m =
      (.ok (), { m with err := m.err ++ String.join (checks.map checkLine) }) := by
  induction checks generalizing m with
  | nil =>
    rw [List.map_nil, String.join_nil, String.append_empty]
    rfl
  | cons k checks ih =>
    have hline : m.err ++ ("[" ++ k.status ++ "] " ++ k.name) ++ "\n" = m.err ++ checkLine k := by
      rw [checkLine, String.append_assoc]
    rw [List.map_cons, String.join_cons, ← String.append_assoc, ← hline]
    exact ih { m with err := m.err ++ ("[" ++ k.status ++ "] " ++ k.name) ++ "\n" }

theorem exec_reportChecks (checks : List Check) (m : Machine) :
    (reportChecks checks).exec m =
      (.ok (if checks.any (!·.passed) then 2 else 0),
        { m with err := m.err ++ checksText checks }) := by
  unfold reportChecks checksText
  rw [exec_bind_ok (exec_forM_reportLine checks m)]
  by_cases hmissing : checks.any (!·.passed) = true
  · rw [if_pos hmissing, if_pos hmissing, if_pos hmissing, ← String.append_assoc,
      ← String.append_assoc]
    rfl
  · rw [if_neg hmissing, if_neg hmissing, if_neg hmissing, String.append_empty]
    rfl

/-- The lines about the tools show which of them are found. -/
theorem passed_eq_of_lines {f g : ToolRole → Check} (hname : ∀ r, (f r).name = (g r).name)
    {roles : List ToolRole} {s t : String}
    (h : String.join (roles.map fun r => checkLine (f r)) ++ s =
      String.join (roles.map fun r => checkLine (g r)) ++ t) :
    ∀ r ∈ roles, (f r).passed = (g r).passed := by
  induction roles with
  | nil => simp
  | cons r roles ih =>
    have hlength : (checkLine (f r)).toList.length = (checkLine (g r)).toList.length := by
      unfold checkLine Check.status
      rw [hname r]
      cases (f r).passed <;> cases (g r).passed <;> simp
    rw [List.map_cons, List.map_cons, String.join_cons, String.join_cons, String.append_assoc,
      String.append_assoc] at h
    have hlists := congrArg String.toList h
    simp only [String.toList_append] at hlists
    obtain ⟨hline, hrest⟩ := List.append_inj hlists hlength
    have hhead : (f r).passed = (g r).passed := by
      rw [String.toList_inj] at hline
      unfold checkLine Check.status at hline
      rw [hname r] at hline
      cases hf : (f r).passed <;> cases hg : (g r).passed <;> simp [hf, hg] at hline ⊢
    intro r' hr'
    rcases List.mem_cons.mp hr' with rfl | hr'
    · exact hhead
    · rw [← String.toList_append, ← String.toList_append] at hrest
      exact ih (String.toList_inj.mp hrest) r' hr'

/-- The tools of all roles are found from `cwd` as they are from where the program works. -/
def SameTools (c : Config) (m : Machine) (cwd : Place) : Prop :=
  ∀ r, (m.view.workingAt cwd).findsExecutable m.environment.searchPath (c.tools r) =
    m.view.findsExecutable m.environment.searchPath (c.tools r)

theorem passed_lookForTool (v : View) (searchPath : String) (r : ToolRole) (tool : String) :
    (lookForTool v searchPath r tool).passed = v.findsExecutable searchPath tool := by
  unfold lookForTool
  cases v.findsExecutable searchPath tool <;> rfl

theorem name_lookForTool (v : View) (searchPath : String) (r : ToolRole) (tool : String) :
    (lookForTool v searchPath r tool).name = availability r.name := by
  unfold lookForTool
  cases v.findsExecutable searchPath tool <;> rfl

theorem sameTools_of_checksText {m : Machine} {cwd : Place} {checks : List Check}
    (h : checksText (toolChecks c (m.workingAt cwd) ++ checks) =
      checksText (toolChecks c m ++ checks)) : SameTools c m cwd := by
  intro r
  unfold checksText toolChecks at h
  rw [List.map_append, List.map_append, String.join_append, String.join_append,
    String.append_assoc, String.append_assoc, List.map_map, List.map_map] at h
  have hpassed := passed_eq_of_lines
    (fun r => (name_lookForTool _ _ r _).trans (name_lookForTool _ _ r _).symm) h r r.mem_all
  rw [passed_lookForTool, passed_lookForTool] at hpassed
  exact hpassed

theorem toolChecks_of_sameTools {m : Machine} {cwd : Place} (h : SameTools c m cwd) :
    toolChecks c (m.workingAt cwd) = toolChecks c m := by
  apply List.map_congr_left
  intro r _
  change lookForTool (m.view.workingAt cwd) m.environment.searchPath r (c.tools r) = _
  rw [lookForTool, lookForTool, h r]

/-- A check ends in no fault if it can look for the manifest and try to write a file. -/
theorem exec_reportPrerequisites_ok {m : Machine} {there : Bool}
    (hmanifest : m.view.isFile (c.workDir.child manifestName) = .ok there)
    (hnul : hasNul (c.workDir.child (probeName m.process)) = false) :
    ∃ status, ((reportPrerequisites c).exec m).1 = .ok status := by
  have heq : reportPrerequisites c = prerequisites c >>= reportChecks := rfl
  obtain ⟨writable, m', hprobe⟩ := exec_probeWriting_ok hnul
  obtain ⟨manifest, hmanifest⟩ : ∃ check, lookForManifest m.view c.workDir = .ok check := by
    rw [lookForManifest, hmanifest]
    exact ⟨_, rfl⟩
  have hproject : (projectChecks c).exec m = (.ok [manifest, writable], m') := by
    rw [projectChecks, exec_bind_ok (exec_get m), hmanifest, lift, pure_bind, exec_bind_ok hprobe]
    rfl
  have hhere := exec_prerequisites c m
  rw [hproject] at hhere
  rw [heq, exec_bind_ok hhere, exec_reportChecks]
  exact ⟨_, rfl⟩

/-- A check comes to the same from everywhere exactly if it ends in a fault or finds the same
tools. -/
theorem agree_reportPrerequisites_iff (hc : c.workDir.isAbsolute = true) (m : Machine)
    (cwd : Place) :
    Agree Machine.Alike ((reportPrerequisites c).exec m)
        ((reportPrerequisites c).exec (m.workingAt cwd)) ↔
      (∃ fault, ((reportPrerequisites c).exec m).1 = .error fault) ∨ SameTools c m cwd := by
  have heq : reportPrerequisites c = prerequisites c >>= reportChecks := rfl
  have hchecks : Respects Machine.Alike (projectChecks c) := by
    rw [Machine.alike_eq_related]
    exact respects_projectChecks hc
  obtain ⟨hresult, hstate⟩ := hchecks m _ (m.alike_workingAt cwd)
  have hhere := exec_prerequisites c m
  have hthere := exec_prerequisites c (m.workingAt cwd)
  change ((projectChecks c).exec (m.workingAt cwd)).1 = ((projectChecks c).exec m).1 at hresult
  rw [hresult] at hthere
  rw [heq]
  cases hchecks : ((projectChecks c).exec m).1 with
  | error fault =>
    rw [hchecks] at hhere hthere
    rw [exec_bind_error hhere, exec_bind_error hthere]
    exact ⟨fun _ => .inl ⟨fault, rfl⟩, fun _ => ⟨rfl, hstate⟩⟩
  | ok checks =>
    rw [hchecks] at hhere hthere
    rw [exec_bind_ok hhere, exec_bind_ok hthere, exec_reportChecks, exec_reportChecks]
    change Machine.Alike ((projectChecks c).exec m).2
      ((projectChecks c).exec (m.workingAt cwd)).2 at hstate
    generalize ((projectChecks c).exec m).2 = after at hstate
    generalize ((projectChecks c).exec (m.workingAt cwd)).2 = after' at hstate
    constructor
    · rintro ⟨-, hafter⟩
      have herr := congrArg Machine.err hafter
      have hsame : after'.err = after.err := by
        rw [hstate]
        rfl
      dsimp only [Machine.workingAt] at herr
      rw [hsame] at herr
      exact .inr (sameTools_of_checksText (String.append_right_inj _ |>.mp herr))
    · rintro (⟨fault, hfault⟩ | htools)
      · cases hfault
      · rw [toolChecks_of_sameTools htools]
        have hafter := congrArg
          (fun m' => { m' with err := m'.err ++ checksText (toolChecks c m ++ checks) }) hstate
        exact ⟨rfl, hafter⟩

theorem pipeline_of_check {i : CommandLine.Invocation} (h : i.command = .check) :
    i.pipeline c = reportPrerequisites c := by
  rw [CommandLine.Invocation.pipeline, h]

/-- Every pipeline but the check runs the same from everywhere. -/
theorem respects_pipeline (hc : c.workDir.isAbsolute = true) {i : CommandLine.Invocation}
    (hcommand : i.command ≠ .check) : Respects Machine.Alike (i.pipeline c) := by
  have hfind := respects_findOutputs_absolute hc c.outputPattern
  have hdiscard := respects_discardOutputs_absolute hc c.outputPattern
  rw [Machine.alike_eq_related]
  unfold CommandLine.Invocation.pipeline
  cases h : i.command with
  | profileSampling =>
    exact respects_drawFlamegraph (respects_writeFile_absolute (Path.isAbsolute_join hc _))
  | profileInstrumentation => exact respects_reportHotLines hfind hdiscard _
  | clean => exact handling_respects.tidy respects_reportLine hdiscard
  | annotate =>
    exact handling_respects.reportOutputs respects_reportLine (respects_perform c) hfind
      respects_printLine _
  | check => exact absurd h hcommand

end Run

/-- **Where the program works.** With an absolute work directory, a pipeline gives the same result
and leaves the same machine from any two places, whatever the tools do; only a check that comes to
its end depends on where it is run, and exactly if it finds other tools from there. -/
theorem agree_elsewhere_iff (i : CommandLine.Invocation) {c : Config}
    (hc : c.workDir.isAbsolute = true) (m : Machine) (cwd : Place) :
    Agree Machine.Alike ((i.pipeline c).exec m) ((i.pipeline c).exec (m.workingAt cwd)) ↔
      (i.command = .check →
        (∃ fault, ((i.pipeline c).exec m).1 = .error fault) ∨ SameTools c m cwd) := by
  by_cases hcommand : i.command = .check
  · rw [pipeline_of_check hcommand, agree_reportPrerequisites_iff hc]
    simp [hcommand]
  · have hagree := respects_pipeline hc hcommand m _ (m.alike_workingAt cwd)
    exact ⟨fun _ h => absurd h hcommand, fun _ => hagree⟩

/-- If every search for a tool starts from the top, nothing depends on where the program works. -/
theorem agree_of_looksFromTop (i : CommandLine.Invocation) {c : Config}
    (hc : c.workDir.isAbsolute = true) {m : Machine}
    (htop : ∀ r, LooksFromTop m.environment.searchPath (c.tools r)) (cwd : Place) :
    Agree Machine.Alike ((i.pipeline c).exec m) ((i.pipeline c).exec (m.workingAt cwd)) := by
  by_cases hcommand : i.command = .check
  · have htools : SameTools c m cwd := fun r =>
      (m.view.sameTree_workingAt cwd).findsExecutable (htop r)
    rw [pipeline_of_check hcommand]
    exact (agree_reportPrerequisites_iff hc m cwd).mpr (.inr htools)
  · exact respects_pipeline hc hcommand m _ (m.alike_workingAt cwd)

/-- The search path of the system starts from the top everywhere. -/
theorem looksFromTop_systemSearchPath {tool : String} (h : tool.toList.contains '/' = false) :
    LooksFromTop systemSearchPath tool := by
  rw [LooksFromTop, h]
  exact .inr (by decide +kernel)

/-- A configuration whose build tool is named as a file of the directory that is looked from. -/
def localToolConfig : Config where
  workDir := ⟨.slash, ["p"]⟩
  binary := "p"
  tools := fun r => if r = .build then "./cargo" else r.default

/-- The directory `/p` with that tool, where the program works in `/p`. -/
def localToolMachine : Machine :=
  .bare (.ofEntries [(["p"], .directory), (["p", "cargo"], .file [] true)] ["p"])

theorem agree_elsewhere_localTool :
    localToolConfig.workDir.isAbsolute = true ∧
      Agree Machine.Alike ((tidy localToolConfig).exec localToolMachine)
        ((tidy localToolConfig).exec (localToolMachine.workingAt ⟨[], 0⟩)) ∧
      Agree Machine.Alike
        ((reportPrerequisites { localToolConfig with tools := defaultTools }).exec localToolMachine)
        ((reportPrerequisites { localToolConfig with tools := defaultTools }).exec
          (localToolMachine.workingAt ⟨[], 0⟩)) := by
  refine ⟨rfl, (agree_elsewhere_iff { command := .clean } rfl localToolMachine ⟨[], 0⟩).mpr nofun,
    (agree_elsewhere_iff { command := .check } rfl localToolMachine ⟨[], 0⟩).mpr fun _ => .inr ?_⟩
  intro r
  refine (View.sameTree_workingAt _ _).findsExecutable (looksFromTop_systemSearchPath ?_)
  cases r <;> decide +kernel

/-- The look-up of the tool comes to the file `cargo` below the place that it starts from. -/
theorem findsExecutable_localTool (v : View) (spot : Place)
    (hwalk : walk v.tree .find maxLinks v.cwd [".", "cargo"] = .ok spot) :
    v.findsExecutable systemSearchPath "./cargo" = true ↔
      ∃ content, v.tree.at? spot = some (.file content true) := by
  have hsteps : stepsOf "./cargo" = [".", "cargo"] := by decide +kernel
  have htop : startsAtTop "./cargo" = false := by decide +kernel
  have hslash : "./cargo".toList.contains '/' = true := by decide +kernel
  have hstart : walk v.tree .find maxLinks
      (if startsAtTop "./cargo" then ⟨[], 0⟩ else v.cwd) (stepsOf "./cargo") = .ok spot := by
    rw [hsteps, htop]
    exact hwalk
  rw [View.findsExecutable, if_pos hslash, View.isExecutable_iff,
    and_iff_right (by decide +kernel), and_iff_right (by decide +kernel)]
  refine exists_congr fun content => View.statText_eq_ok_iff.trans ?_
  rw [and_iff_right (by decide +kernel)]
  constructor
  · rintro ⟨spot', hspot, hentry⟩
    obtain rfl : spot = spot' := Except.ok.inj (hstart.symm.trans hspot)
    exact hentry
  · exact fun hentry => ⟨spot, hstart, hentry⟩

/-- A check finds such a tool from the work directory only. -/
theorem not_forall_agree_elsewhere :
    ¬ ∀ (i : CommandLine.Invocation) (c : Config) (m : Machine) (cwd : Place),
      c.workDir.isAbsolute = true →
        Agree Machine.Alike ((i.pipeline c).exec m) ((i.pipeline c).exec (m.workingAt cwd)) := by
  intro h
  have hagree : Agree Machine.Alike ((reportPrerequisites localToolConfig).exec localToolMachine)
      ((reportPrerequisites localToolConfig).exec (localToolMachine.workingAt ⟨[], 0⟩)) :=
    h { command := .check } localToolConfig localToolMachine ⟨[], 0⟩ rfl
  rcases (agree_reportPrerequisites_iff rfl localToolMachine ⟨[], 0⟩).mp hagree with
    ⟨fault, hfault⟩ | htools
  · have hlocate : localToolMachine.view.locate .find
        (localToolConfig.workDir.child manifestName) = .ok ⟨["p", "Cargo.toml"], 0⟩ := by
      cbv
    have hmanifest : localToolMachine.view.isFile (localToolConfig.workDir.child manifestName) =
        .ok false := by
      rw [View.isFile, View.read?, View.find, if_neg (by decide +kernel), View.stat, hlocate]
      rfl
    have hnul : hasNul (localToolConfig.workDir.child (probeName 1)) = false := by decide +kernel
    obtain ⟨status, hstatus⟩ := exec_reportPrerequisites_ok hmanifest hnul
    rw [hstatus] at hfault
    cases hfault
  · have hhere := (findsExecutable_localTool localToolMachine.view ⟨["p", "cargo"], 0⟩
      (by cbv)).mpr ⟨[], rfl⟩
    obtain ⟨content, hthere⟩ := (findsExecutable_localTool
      (localToolMachine.view.workingAt ⟨[], 0⟩) ⟨["cargo"], 0⟩ (by cbv)).mp
      ((htools .build).trans hhere)
    cases hthere

end HotPath
