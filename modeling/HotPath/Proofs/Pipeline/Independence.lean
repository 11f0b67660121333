import HotPath.Proofs.FileSystem.Alongside
import HotPath.Proofs.Machine.Related
import HotPath.Proofs.SourceDir

/-!
# Pipelines that do not disturb each other

A sampling run writes the flame graph and what its tools write, and no more. An instrumented run
deletes and reads what the pattern of outputs matches in the work directory, and its tools write
what they write. Where these places are apart, the two runs can be made in either order: both give
the same results, print the same, start the same tools, and leave the same files
(`drawFlamegraph_reportHotLines_commute`). This holds for runs that end early as well.

The proof looks at one run at a time. A run keeps to its places (`Confined`): whatever relation
between trees admits changes at these places, the run respects it. It follows that a run changes
nothing else (`Confined.exists_beside`), and that changes elsewhere make no difference to it
(`Confined.undisturbed`).
-/

namespace HotPath

open FileSystem Glob

/-! ## Searching the work directory -/

/-- The step leads to the entry of this name, if there is one. -/
def Glob.Step.matches : Step → String → Bool
  | .exactly name, n => n = name
  | .covering pieces, n => matchesPieces pieces n.toList
  | .descend, _ => true

section Search

variable {T : Tree → Tree → Prop} {A : Address → Prop} {p : Path} {w : Address} {cwd : Place}
  {v v' : View} {name : String} {e : Entry} {step : Step} {directories : Bool}

theorem leadsOn_of_not_link (v : View) (p : Path) (name : String) (he : e.isLink = false) :
    leadsOn v p name e = .ok (e = .directory) := by
  cases e with
  | link target => cases he
  | file | directory => rfl

/-- A step with wildcards makes nothing of an entry that it does not match. -/
theorem followEntry_of_not_matches {keep : Path → Except FileError Bool} {pieces : List Piece}
    {rest : List Step} (he : e.isLink = false) (hno : matchesPieces pieces name.toList = false) :
    followEntry v keep directories pieces rest p (name, e) = .ok [] := by
  rw [followEntry, leadsOn_of_not_link v p name he]
  dsimp only
  simp only [hno, Bool.and_false, Bool.false_eq_true, if_false]
  cases endsHere directories rest <;> rfl

namespace FileSystem.Alongside

variable (h : Alongside T p w cwd v v') (hT : Admits T A)

include h

theorem isDirectory : v'.isDirectory p = v.isDirectory p := by
  rw [View.isDirectory, View.isDirectory, View.find, View.find, h.left.stat, h.right.stat]

include hT

theorem follow_nil (hname : A (w ++ [name])) :
    follow v' v'.isFile directories [] (p.child name) =
      follow v v.isFile directories [] (p.child name) := by
  rw [follow, follow, View.isFile, View.isFile, View.read?, View.read?, h.find_child hT hname]

/-- A single step leads to the same paths in both views. -/
theorem follow_step (hstep : step ≠ .descend)
    (hmatches : ∀ name, step.matches name = true → A (w ++ [name])) :
    follow v' v'.isFile directories [step] p = follow v v.isFile directories [step] p := by
  cases step with
  | exactly name =>
    have hname : A (w ++ [name]) := hmatches name (by simp [Step.matches])
    rw [follow_exactly, follow_exactly, h.follow_nil hT hname, View.isPresent, View.isPresent,
      View.isDirectory, View.isDirectory, h.find_child hT hname]
  | covering pieces =>
    have hflat (found : Except FileError (List (List Path))) :
        (do return (← found).flatten) = found.map List.flatten := by
      cases found <;> rfl
    have hskip {u : View} (hu : u.ComesTo p w) (member : String × Entry)
        (hmember : member ∈ u.tree.members w)
        (hno : matchesPieces pieces member.1.toList = false) :
        followEntry u u.isFile directories pieces [] p member = .ok [] :=
      followEntry_of_not_matches (hu.isLink_of_mem hmember) hno
    have hmembers := hT.members (w := w) (k := fun name => matchesPieces pieces name.toList)
      h.trees hmatches
    rw [follow_covering, follow_covering, View.list_of_locate h.left.located,
      View.list_of_locate h.right.located]
    change (do return (← (v'.tree.members w).mapM
        (followEntry v' v'.isFile directories pieces [] p)).flatten) =
      (do return (← (v.tree.members w).mapM
        (followEntry v v.isFile directories pieces [] p)).flatten)
    rw [hflat, hflat, ← flatten_mapM_filter (hskip h.right), ← flatten_mapM_filter (hskip h.left),
      hmembers]
    refine congrArg (Except.map List.flatten) (mapM_congr fun member hmember => ?_)
    obtain ⟨hthere, hmatch⟩ := List.mem_filter.mp hmember
    have hlink := h.left.isLink_of_mem hthere
    rw [followEntry, followEntry, leadsOn_of_not_link v' p member.1 hlink,
      leadsOn_of_not_link v p member.1 hlink, h.follow_nil hT (hmatches _ hmatch)]
  | descend => exact absurd rfl hstep

theorem outputs_eq {text : String} (hparse : PathPattern.parse text = .ok ⟨[step], directories⟩)
    (hstep : step ≠ .descend) (hmatches : ∀ name, step.matches name = true → A (w ++ [name])) :
    outputs v' p text = outputs v p text := by
  rw [outputs_of_parse v' p hparse, outputs_of_parse v p hparse, filesFound, filesFound, search,
    search, h.isDirectory]
  dsimp only
  rw [h.follow_step hT hstep hmatches]

end FileSystem.Alongside

theorem exists_of_mem_outputs {text : String} {files : List Path} {q : Path}
    (hparse : PathPattern.parse text = .ok ⟨[step], directories⟩) (hstep : step ≠ .descend)
    (h : outputs v p text = .ok files) (hq : q ∈ files) :
    ∃ name, step.matches name = true ∧ q = p.child name := by
  rw [outputs_of_parse v p hparse] at h
  obtain ⟨-, hleads, -⟩ := (mem_filesFound_iff (mapError_eq_ok_iff.mp h)).mp hq
  cases hleads with
  | exactly _ hrest =>
    cases hrest
    exact ⟨_, by simp [Step.matches], rfl⟩
  | covering _ _ hcovers _ hrest =>
    cases hrest
    exact ⟨_, matchesPieces_iff.mpr hcovers, rfl⟩
  | descend => exact absurd rfl hstep

end Search

/-! ## Runs that keep to some addresses -/

/-- The machine with these files, where the tools that are started next do what a script says. -/
def Machine.given (m : Machine) (v : View) (script : List Reply) : Machine :=
  { m with view := v, replies := script }

/-- The machines are the same but for their files. -/
def Machine.SameButFiles (m m' : Machine) : Prop := m' = { m with view := m'.view }

/-- The views are from one place, and show the same entries. -/
def FileSystem.View.SameFiles (v v' : View) : Prop :=
  v'.cwd = v.cwd ∧ ∀ a, v'.tree.get? a = v.tree.get? a

/-- The action and the tools of the script change entries at `A` only: where a relation between
trees admits that, they do not disturb it. -/
structure Confined {α : Type} (p : Path) (w : Address) (A : Address → Prop) (script : List Reply)
    (action : Run α) : Prop where
  run {T : Tree → Tree → Prop} {cwd : Place} : Admits T A →
    Respects (Machine.Related (Alongside T p w cwd)) action
  tools {T : Tree → Tree → Prop} {cwd : Place} : Admits T A →
    ∀ r ∈ script, Respects (Alongside T p w cwd) (r.changes.forM Change.make)

namespace Confined

variable {α β : Type} {p : Path} {w : Address} {A B X made : Address → Prop}
  {script script' : List Reply} {action : Run α} {other : Run β} {v v' : View}

theorem agree (h : Confined p w A script action) {T : Tree → Tree → Prop} {cwd : Place}
    (hT : Admits T A) (hv : Alongside T p w cwd v v') (m : Machine) :
    Agree (Machine.Related (Alongside T p w cwd)) (action.exec (m.given v script))
      (action.exec (m.given v' script)) :=
  h.run hT _ _ ⟨rfl, hv, h.tools hT⟩

/-- The run leads to a tree beside the first. -/
theorem exists_beside (h : Confined p w A script action) (hv : v.ComesTo p w) (m : Machine) :
    ∃ made, Tree.Beside A made v.tree (action.exec (m.given v script)).2.view.tree ∧
      (action.exec (m.given v script)).2.view.ComesTo p w ∧
      (action.exec (m.given v script)).2.view.cwd = v.cwd := by
  have hstart : Alongside (fun t t' => t' = t ∧ ∃ made, Tree.Beside A made v.tree t) p w v.cwd
      v v := ⟨rfl, rfl, hv, hv, rfl, _, .refl A v.tree⟩
  have hfiles := (h.agree (admits_from A v.tree) hstart m).state.files
  obtain ⟨-, made, hbeside⟩ := hfiles.trees
  exact ⟨made, hbeside, hfiles.left, hfiles.cwd_left⟩

/-- Changes apart from `A` make no difference to the run. -/
theorem undisturbed (h : Confined p w A script action)
    (hapart : ∀ a, A a → ∀ x, X x → Apart a x) (hv : v.ComesTo p w) (hv' : v'.ComesTo p w)
    (hcwd : v'.cwd = v.cwd) (hbeside : Tree.Beside X made v.tree v'.tree) (m : Machine) :
    Agree (Machine.Related (Alongside (fun t t' => Tree.Beside X made t t' ∧
        ∀ a, Below X a → t'.get? a = v'.tree.get? a) p w v.cwd))
      (action.exec (m.given v script)) (action.exec (m.given v' script)) :=
  h.agree (admits_beside hapart v'.tree) ⟨rfl, hcwd, hv, hv', hbeside, fun _ _ => rfl⟩ m

/-- Runs that keep to addresses apart do the same in either order. -/
theorem commute (h : Confined p w A script action) (h' : Confined p w B script' other)
    (hapart : ∀ a, A a → ∀ b, B b → Apart a b) (hv : v.ComesTo p w) (m : Machine) :
    let first := fun v => action.exec (m.given v script)
    let second := fun v => other.exec (m.given v script')
    Agree Machine.SameButFiles (first v) (first (second v).2.view) ∧
      Agree Machine.SameButFiles (second v) (second (first v).2.view) ∧
      View.SameFiles (first (second v).2.view).2.view (second (first v).2.view).2.view := by
  intro first second
  obtain ⟨made, hbeside, hcomes, hcwd⟩ := h.exists_beside hv m
  obtain ⟨made', hbeside', hcomes', hcwd'⟩ := h'.exists_beside hv m
  have hfirst := h.undisturbed hapart hv hcomes' hcwd' hbeside' m
  have hsecond := h'.undisturbed (fun b hb a ha => (hapart a ha b hb).symm) hv hcomes hcwd
    hbeside m
  obtain ⟨hAB, hfromB⟩ := hfirst.state.files.trees
  obtain ⟨hBA, hfromA⟩ := hsecond.state.files.trees
  refine ⟨⟨hfirst.result, hfirst.state.rest⟩, ⟨hsecond.result, hsecond.state.rest⟩, ?_, ?_⟩
  · exact hsecond.state.files.cwd_right.trans hfirst.state.files.cwd_right.symm
  · exact Tree.Beside.commute hapart hbeside hbeside' hBA hAB hfromA hfromB

end Confined

/-! ## The pipelines -/

/-- The change writes a regular file, by names that a file can have. -/
def Change.WritesFile : Change → Prop
  | .put names (.file _ _) => ∀ name ∈ names, IsFileName name
  | _ => False

instance (change : Change) : Decidable change.WritesFile :=
  match change with
  | .put _ (.file _ _) => inferInstanceAs (Decidable (∀ name ∈ _, _))
  | .put _ (.link _) | .put _ .directory | .remove _ => inferInstanceAs (Decidable False)

/-- Where a change is made. -/
def Change.address : Change → Address
  | .put names _ | .remove names => names

/-- Where the tools of a script change entries. -/
def changedBy (script : List Reply) : List Address :=
  script.flatMap fun r => r.changes.map Change.address

/-- Where a sampling run writes: where its tools do, and the flame graph. -/
def SampledAt (w : Address) (graph : String) (script : List Reply) (a : Address) : Prop :=
  a ∈ changedBy script ∨ a = w ++ [graph]

/-- Where an instrumented run writes or deletes: where its tools do, and whatever the pattern
matches. -/
def InstrumentedAt (w : Address) (step : Step) (script : List Reply) (a : Address) : Prop :=
  a ∈ changedBy script ∨ ∃ name, step.matches name = true ∧ a = w ++ [name]

section Pipelines

variable {c : Config} {w : Address} {graph : String} {step : Step} {A : Address → Prop}
  {script : List Reply} {v : View}

/-- Tools that write regular files at `A` do not disturb a relation that admits that. -/
theorem respects_script {T : Tree → Tree → Prop} {p : Path} {cwd : Place} (hT : Admits T A)
    (hfiles : ∀ r ∈ script, ∀ change ∈ r.changes, change.WritesFile)
    (hA : ∀ a ∈ changedBy script, A a) :
    ∀ r ∈ script, Respects (Alongside T p w cwd) (r.changes.forM Change.make) := by
  intro r hr
  refine Respects.forM fun change hchange => ?_
  have hfile := hfiles r hr change hchange
  have hplace : A change.address :=
    hA _ (List.mem_flatMap.mpr ⟨r, hr, List.mem_map_of_mem hchange⟩)
  cases change with
  | remove names => exact hfile.elim
  | put names entry =>
    cases entry with
    | link target => exact hfile.elim
    | directory => exact hfile.elim
    | file content executable =>
      exact Alongside.respects_put hT hplace hfile content executable

theorem confined_drawFlamegraph (hgraph : Path.parse c.flamegraphName = ⟨.relative, [graph]⟩)
    (hfiles : ∀ r ∈ script, ∀ change ∈ r.changes, change.WritesFile) :
    Confined c.workDir w (SampledAt w graph script) script (Run.drawFlamegraph c) where
  run := by
    intro T cwd hT
    have hpath : c.flamegraph = c.workDir.child graph := by
      rw [Config.flamegraph, Path.join, hgraph]
      rfl
    have hname : graph ≠ "" := by
      rintro rfl
      have hmem : "" ∈ Path.namesOf c.flamegraphName.toList := by
        rw [show Path.namesOf c.flamegraphName.toList = [""] from congrArg Path.names hgraph]
        exact List.mem_singleton_self ""
      exact absurd (Path.isPlainName_of_mem_namesOf hmem).1 (by decide)
    refine Run.respects_drawFlamegraph fun content => ?_
    rw [Run.saveFlamegraph, hpath]
    exact Run.respects_writeFile fun v v' h => h.write_child hT (.inr rfl) hname content
  tools hT := respects_script hT hfiles fun a ha => .inl ha

theorem confined_reportHotLines {directories : Bool}
    (hpattern : PathPattern.parse c.outputPattern = .ok ⟨[step], directories⟩)
    (hstep : step ≠ .descend)
    (hfiles : ∀ r ∈ script, ∀ change ∈ r.changes, change.WritesFile) (format : String) :
    Confined c.workDir w (InstrumentedAt w step script) script (Run.reportHotLines c format) where
  run := by
    intro T cwd hT
    have hmatches (name : String) (h : step.matches name = true) :
        InstrumentedAt w step script (w ++ [name]) := .inr ⟨name, h, rfl⟩
    have hfind : Respects (Machine.Related (Alongside T c.workDir w cwd))
        (Run.findOutputs c.workDir c.outputPattern) :=
      Run.respects_findOutputs fun v v' h => h.outputs_eq hT hpattern hstep hmatches
    refine Run.respects_reportHotLines hfind (Run.respects_discardOutputs hfind ?_) format
    intro v files hfiles q hq
    obtain ⟨name, hname, rfl⟩ := exists_of_mem_outputs hpattern hstep hfiles hq
    exact Run.respects_deleteFile fun v v' h => h.unlink_child hT (hmatches name hname)
  tools hT := respects_script hT hfiles fun a ha => .inl ha

end Pipelines

/-- The files, the configuration and the scripts of the tools are such that the two pipelines keep
to different places. The work directory is at `w`, and the pattern of outputs is the one step
`step`. -/
structure Independent (c : Config) (v : View) (w : Address) (graph : String) (step : Step)
    (sampling instrumentation : List Reply) : Prop where
  linkless : v.tree.Linkless
  located : v.locate .find c.workDir = .ok ⟨w, 0⟩
  directory : v.tree.get? w = some .directory
  pattern : ∃ directories, PathPattern.parse c.outputPattern = .ok ⟨[step], directories⟩
  single : step ≠ .descend
  flamegraph : Path.parse c.flamegraphName = ⟨.relative, [graph]⟩
  sampled : ∀ r ∈ sampling, ∀ change ∈ r.changes, change.WritesFile
  instrumented : ∀ r ∈ instrumentation, ∀ change ∈ r.changes, change.WritesFile
  apart : ∀ a, SampledAt w graph sampling a → ∀ b, InstrumentedAt w step instrumentation b →
    Apart a b

/-- **Independence of the pipelines.** Where a sampling run and an instrumented run keep to
different places, each gives the same result, prints the same and starts the same tools before the
other and after it, and the files are the same in the end, whichever comes first. -/
theorem drawFlamegraph_reportHotLines_commute {c : Config} {m : Machine} {w : Address}
    {graph : String} {step : Step} {sampling instrumentation : List Reply}
    (h : Independent c m.view w graph step sampling instrumentation) (format : String) :
    let sample := fun v => (Run.drawFlamegraph c).exec (m.given v sampling)
    let instrument := fun v => (Run.reportHotLines c format).exec (m.given v instrumentation)
    Agree Machine.SameButFiles (sample m.view) (sample (instrument m.view).2.view) ∧
      Agree Machine.SameButFiles (instrument m.view) (instrument (sample m.view).2.view) ∧
      View.SameFiles (sample (instrument m.view).2.view).2.view
        (instrument (sample m.view).2.view).2.view := by
  obtain ⟨directories, hpattern⟩ := h.pattern
  exact (confined_drawFlamegraph h.flamegraph h.sampled).commute
    (confined_reportHotLines hpattern h.single h.instrumented format) h.apart
    ⟨h.linkless, h.located, h.directory⟩ m

/-- A project with a stale output. -/
def profiledProject : View where
  tree := ⟨[(["p"], .directory), (["p", "cachegrind.out.1"], .file [1] false)], by decide⟩
  cwd := ⟨[], 0⟩
  rooted := by decide
  named := by decide +kernel
  inDirectory := rfl

def profiledConfig : Config where
  workDir := ⟨.slash, ["p"]⟩
  binary := "p"

def profiledStep : Step := .covering (piecesOf "cachegrind.out.*".toList)

/-- The tools of a sampling run: the second leaves a trace and a log, the last one draws. -/
def samplingScript : List Reply :=
  [.silent, ⟨[.put ["p", "perf.data"] (.file [2] false), .put ["log", "sample"] (.file [] false)],
    .finished 0 []⟩, .silent, .silent, ⟨[], .finished 0 [3]⟩]

/-- The tools of an instrumented run: the second leaves an output and a log, the third fails. -/
def instrumentationScript : List Reply :=
  [.silent, ⟨[.put ["p", "cachegrind.out.2"] (.file [4] false),
    .put ["log", "run"] (.file [] false)], .finished 0 []⟩, ⟨[], .finished 1 []⟩]

theorem drawFlamegraph_reportHotLines_commute_logs :
    Independent profiledConfig profiledProject ["p"] "flamegraph.svg" profiledStep samplingScript
        instrumentationScript ∧
      View.SameFiles
        ((Run.drawFlamegraph profiledConfig).exec ((Machine.bare profiledProject).given
          ((Run.reportHotLines profiledConfig "text").exec ((Machine.bare profiledProject).given
            profiledProject instrumentationScript)).2.view samplingScript)).2.view
        ((Run.reportHotLines profiledConfig "text").exec ((Machine.bare profiledProject).given
          ((Run.drawFlamegraph profiledConfig).exec ((Machine.bare profiledProject).given
            profiledProject samplingScript)).2.view instrumentationScript)).2.view := by
  have hwritten : ∀ a ∈ changedBy samplingScript, ∀ b ∈ changedBy instrumentationScript,
      Apart a b := by decide
  have hgraph : ∀ b ∈ changedBy instrumentationScript, Apart (["p"] ++ ["flamegraph.svg"]) b := by
    decide
  have hother (name : String) (hname : profiledStep.matches name = true) :
      name ≠ "perf.data" ∧ name ≠ "flamegraph.svg" := by
    constructor
    · rintro rfl
      exact absurd hname (by decide +kernel)
    · rintro rfl
      exact absurd hname (by decide +kernel)
  have hindependent : Independent profiledConfig profiledProject ["p"] "flamegraph.svg"
      profiledStep samplingScript instrumentationScript := by
    refine ⟨by decide, by cbv, rfl, ⟨false, by decide +kernel⟩, nofun, rfl, by decide,
      by decide, ?_⟩
    rintro a (ha | rfl) b (hb | ⟨name, hname, rfl⟩)
    · exact hwritten a ha b hb
    · obtain ⟨htrace, -⟩ := hother name hname
      have ha : a = ["p", "perf.data"] ∨ a = ["log", "sample"] := by
        simpa [changedBy, samplingScript, Reply.silent, Change.address] using ha
      rcases ha with rfl | rfl
      · simp [Apart, htrace, htrace.symm]
      · simp [Apart]
    · exact hgraph b hb
    · simp [Apart, (hother name hname).2, (hother name hname).2.symm]
  exact ⟨hindependent, (drawFlamegraph_reportHotLines_commute
    (m := .bare profiledProject) hindependent "text").2.2⟩

end HotPath
