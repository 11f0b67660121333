import HotPath.CommandLine.Program
import HotPath.Proofs.Pipeline.Freshness
import HotPath.Proofs.Prerequisites

/-!
# The flame graph through any history

The commands are run in any order on one configuration, with tools that do anything but change the
flame graph. Only drawing touches the graph, and only if it succeeds: at every time the path of the
graph holds what the renderer wrote in the latest drawing that has succeeded, and what it held at
the start if none has (`flamegraph_of_history`).

One operation changes nothing at the path unless it draws
(`Operation.Harmless.held?_of_not_drawn`): cleaning deletes other files, and the file that a check
writes to see whether files can be written is another one (`Run.held?_probeWriting`).
-/

namespace HotPath

open FileSystem Glob Run

theorem Fault.exit_ne_zero (fault : Fault) : fault.exit ≠ .ok 0 := by
  intro hzero
  cases fault with
  | stage failure =>
    have hstatus : failure.status = 0 := Except.ok.inj hzero
    have hpos := statusOf_pos failure.code_ne_zero
    rw [Failure.status] at hstatus
    omega
  | file | nulCharacter | pattern | sourceDir | report | load => cases hzero

/-! ## What pipelines leave alone -/

section Tools

variable {w : World} {p : Path}

theorem World.held?_after {n : Nat}
    (h : ∀ k < n, (w.after (k + 1)).view.held? p = (w.after k).view.held? p) :
    (w.after n).view.held? p = w.view.held? p := by
  induction n with
  | zero => rfl
  | succ n ih =>
    have hlast := h n (Nat.lt_succ_self n)
    have hbefore := ih fun k hk => h k (Nat.lt_succ_of_lt hk)
    exact hlast.trans hbefore

/-- Where only tools have changed files, and no tool has changed anything at the path. -/
theorem held?_of_tools {m m' : Machine} {calls : List Call} (hcalls : m'.calls = m.calls ++ calls)
    (hworld : m'.world = w.after calls.length)
    (htools : ∀ k, m.calls.length + k < m'.calls.length →
      (w.after (k + 1)).view.held? p = (w.after k).view.held? p) :
    m'.view.held? p = w.view.held? p := by
  have hview : m'.view = (w.after calls.length).view := congrArg World.view hworld
  rw [hview]
  apply World.held?_after
  intro k hk
  apply htools
  rw [hcalls, List.length_append]
  omega

end Tools

namespace Run

variable {c : Config} {m : Machine} {p : Path}

/-- All tools of a drawing pass, and the graph can be written. -/
def CanDraw (c : Config) (m : Machine) : Prop :=
  (∀ k < 5, (m.world.outcomeAt k).Passes) ∧
    CanWrite (m.world.after 5).view c.flamegraph (m.world.outcomeAt 4).output

theorem exec_drawFlamegraph_of_canDraw (h : CanDraw c m) :
    ∃ m', (drawFlamegraph c).exec m = (.ok 0, m') ∧
      (m.world.after 5).view.write c.flamegraph (m.world.outcomeAt 4).output = .ok m'.view ∧
      m'.calls.length = m.calls.length + 5 := by
  obtain ⟨hall, hwrite⟩ := h
  rw [drawFlamegraph_eq]
  rcases exec_relay c samplingLinks [] m with ⟨-, hrelay⟩ | ⟨k, hk, -, hfails, -⟩
  · rw [callsOf_samplingLinks, keptByAll_samplingLinks] at hrelay
    have hview := m.view_afterCalls (samplingCalls c m.world.outcomeAt)
    have hcalls := m.calls_afterCalls (samplingCalls c m.world.outcomeAt)
    generalize m.afterCalls (samplingCalls c m.world.outcomeAt) = after at hrelay hview hcalls
    change after.view = (m.world.after 5).view at hview
    rw [← hview] at hwrite ⊢
    obtain ⟨m', hfinish, hwritten, -, hcalls', -⟩ := exec_finishGraph_of_canWrite hwrite
    refine ⟨m', exec_reportingFailure_ok ((exec_bind_ok hrelay).trans hfinish), hwritten, ?_⟩
    rw [hcalls', hcalls, List.length_append]
    rfl
  · exact absurd (hall k hk) hfails

/-- A drawing that does not succeed leaves behind what its tools have made. -/
theorem exec_drawFlamegraph_of_not_canDraw (h : ¬ CanDraw c m) :
    ((drawFlamegraph c).exec m).1 ≠ .ok 0 ∧ ∃ calls,
      ((drawFlamegraph c).exec m).2.calls = m.calls ++ calls ∧
      ((drawFlamegraph c).exec m).2.world = m.world.after calls.length := by
  rw [drawFlamegraph_eq]
  rcases exec_relay c samplingLinks [] m with
    ⟨hall, hrelay⟩ | ⟨k, -, -, -, fault, call, -, -, hrelay⟩
  · rw [callsOf_samplingLinks, keptByAll_samplingLinks] at hrelay
    have hcalls := m.calls_afterCalls (samplingCalls c m.world.outcomeAt)
    have hworld := m.world_afterCalls (samplingCalls c m.world.outcomeAt)
    generalize m.afterCalls (samplingCalls c m.world.outcomeAt) = after at hrelay hcalls hworld
    have hview : after.view = (m.world.after 5).view := congrArg World.view hworld
    have hwrite : ¬ CanWrite after.view c.flamegraph (m.world.outcomeAt 4).output := by
      intro hwrite
      rw [hview] at hwrite
      exact h ⟨hall, hwrite⟩
    obtain ⟨fault, hfinish, -⟩ := exec_finishGraph_of_not_canWrite hwrite
    obtain ⟨err, hexec⟩ := exec_reportingFailure_error ((exec_bind_ok hrelay).trans hfinish)
    rw [hexec]
    exact ⟨fault.exit_ne_zero, _, hcalls, hworld⟩
  · obtain ⟨err, hexec⟩ := exec_reportingFailure_error (exec_bind_error hrelay)
    rw [hexec]
    exact ⟨fault.exit_ne_zero, _, m.calls_afterCalls _, m.world_afterCalls _⟩

/-- Cleaning deletes no file that is not an output. -/
theorem exec_tidy_cases (c : Config) (m : Machine) :
    ((tidy c).exec m).2.view = m.view ∨
      ∃ pattern, PathPattern.parse c.outputPattern = .ok pattern ∧
        ((tidy c).exec m).2.view = (m.view.afterCleaning m.refused c.workDir pattern).2 := by
  cases hpattern : PathPattern.parse c.outputPattern with
  | error e =>
    rw [exec_tidy_of_parse_error hpattern m]
    exact .inl rfl
  | ok pattern =>
    cases hclean : (m.view.afterCleaning m.refused c.workDir pattern).1 with
    | ok =>
      obtain ⟨err, hexec⟩ := exec_tidy_ok hpattern hclean
      rw [hexec]
      exact .inr ⟨pattern, rfl, rfl⟩
    | error e =>
      obtain ⟨err, hexec⟩ := exec_tidy_error hpattern hclean
      rw [hexec]
      exact .inr ⟨pattern, rfl, rfl⟩

/-- Behind the cleaning, only the tools of an instrumented run change files. -/
theorem exists_calls_reportHotLines (c : Config) (format : String) (m : Machine) :
    ∃ calls, ((reportHotLines c format).exec m).2.calls = m.calls ++ calls ∧
      ((reportHotLines c format).exec m).2.world =
        ((tidy c).exec m).2.world.after calls.length := by
  have htidy := (noCalls_tidy c m).made
  rw [reportHotLines_eq_bind, exec_bind]
  generalize (tidy c).exec m = ended at htidy
  obtain ⟨result, cleaned⟩ := ended
  have hquiet : cleaned.calls = m.calls ++ [] := by
    rw [List.append_nil]
    exact htidy
  cases result with
  | error fault => exact ⟨[], hquiet, rfl⟩
  | ok status =>
    dsimp only
    by_cases hstatus : status ≠ 0
    · rw [if_pos hstatus]
      exact ⟨[], hquiet, rfl⟩
    · rw [if_neg hstatus]
      have htools := byTools_reportingFailure (byTools_buildAndReport c format)
      obtain ⟨calls, hcalls, hworld⟩ := htools cleaned
      rw [htidy] at hcalls
      exact ⟨calls, hcalls, hworld⟩

end Run

/-! ## Operations -/

/-- One use of the program: what is asked for, the process that does it, the files that cannot be
deleted, and what the tools do. -/
structure Operation where
  asked : CommandLine.Invocation
  process : Nat
  refused : Path → Bool
  replies : List Reply

namespace Operation

/-- The machine on which the operation is run. -/
def start (o : Operation) (m : Machine) : Machine :=
  { m with process := o.process, refused := o.refused, replies := o.replies }

def run (o : Operation) (c : Config) (m : Machine) : Except Fault Int × Machine :=
  (o.asked.pipeline c).exec (o.start m)

def next (o : Operation) (c : Config) (m : Machine) : Machine := (o.run c m).2

/-- The world in which the operation starts its tools: behind the cleaning if it is an instrumented
run. -/
def world (o : Operation) (c : Config) (m : Machine) : World :=
  match o.asked.command with
  | .profileInstrumentation => ((tidy c).exec (o.start m)).2.world
  | _ => (o.start m).world

/-- The graph that the operation has drawn: what its fifth tool, the renderer, has written, if the
operation has succeeded. -/
def drawn? (o : Operation) (c : Config) (m : Machine) : Option Bytes :=
  match o.asked.command, (o.run c m).1 with
  | .profileSampling, .ok 0 => some ((o.start m).world.outcomeAt 4).output
  | _, _ => none

/-- The file that the operation writes to see whether files can be written. -/
def probe (o : Operation) (c : Config) : Path := c.workDir.child (probeName o.process)

/-- What is asked of an operation that is run on the machine `m`, so that the flame graph is safe
from it. -/
structure Harmless (o : Operation) (c : Config) (m : Machine) : Prop where
  /-- No tool that is started changes what is held at the path of the graph. -/
  tools : ∀ k, m.calls.length + k < (o.next c m).calls.length →
    ((o.world c m).after (k + 1)).view.held? c.flamegraph =
      ((o.world c m).after k).view.held? c.flamegraph
  /-- No output leads to the graph. -/
  outputs : ∀ pattern q, PathPattern.parse c.outputPattern = .ok pattern →
    IsOutput m.view c.workDir pattern q → ∀ spot, m.view.locate .find c.flamegraph = .ok spot →
      m.view.locate .find q ≠ .ok spot
  probe_noLink : m.view.NoLink (o.probe c)
  probe_elsewhere : ¬ m.view.SamePlace c.flamegraph (o.probe c)

variable {o : Operation} {c : Config} {m : Machine}

theorem held?_tidy (hlink : m.view.NoLink c.flamegraph) (h : o.Harmless c m) :
    ((tidy c).exec (o.start m)).2.view.held? c.flamegraph = m.view.held? c.flamegraph := by
  rcases exec_tidy_cases c (o.start m) with hview | ⟨pattern, hpattern, hview⟩
  · rw [hview]
    rfl
  · rw [hview]
    exact View.held?_afterCleaning hlink fun q hq => h.outputs pattern q hpattern hq

/-- Where only the tools of the operation have changed files, the path of the graph is as they have
found it. -/
theorem Harmless.held?_of_calls (h : o.Harmless c m) {calls : List Call}
    (hcalls : (o.next c m).calls = m.calls ++ calls)
    (hworld : (o.next c m).world = (o.world c m).after calls.length) :
    (o.next c m).view.held? c.flamegraph = (o.world c m).view.held? c.flamegraph :=
  held?_of_tools hcalls hworld h.tools

theorem run_eq_drawFlamegraph (hcommand : o.asked.command = .profileSampling) :
    o.run c m = (drawFlamegraph c).exec (o.start m) := by
  rw [run, CommandLine.Invocation.pipeline, hcommand]

theorem drawn?_of_canDraw (hcommand : o.asked.command = .profileSampling)
    (h : CanDraw c (o.start m)) :
    o.drawn? c m = some ((o.start m).world.outcomeAt 4).output := by
  obtain ⟨m', hexec, -⟩ := exec_drawFlamegraph_of_canDraw h
  rw [drawn?, hcommand, run_eq_drawFlamegraph hcommand, hexec]
  rfl

theorem world_eq_start (hcommand : o.asked.command ≠ .profileInstrumentation) :
    o.world c m = (o.start m).world := by
  unfold world
  split
  · rename_i heq
    exact absurd heq hcommand
  · rfl

/-- An operation that has drawn no graph leaves the path of the graph alone. -/
theorem Harmless.held?_of_not_drawn (h : o.Harmless c m) (hlink : m.view.NoLink c.flamegraph)
    (hdrawn : o.drawn? c m = none) :
    (o.next c m).view.held? c.flamegraph = m.view.held? c.flamegraph := by
  cases hcommand : o.asked.command with
  | profileSampling =>
    have hworld : o.world c m = (o.start m).world := world_eq_start (by simp [hcommand])
    have hstops : ¬ CanDraw c (o.start m) := by
      intro hdraw
      rw [drawn?_of_canDraw hcommand hdraw] at hdrawn
      cases hdrawn
    obtain ⟨-, calls, hcalls, hafter⟩ := exec_drawFlamegraph_of_not_canDraw hstops
    rw [← run_eq_drawFlamegraph hcommand] at hcalls hafter
    rw [← hworld] at hafter
    rw [h.held?_of_calls hcalls hafter, hworld]
    rfl
  | profileInstrumentation =>
    have hrun : o.run c m = (reportHotLines c o.asked.formatName).exec (o.start m) := by
      rw [run, CommandLine.Invocation.pipeline, hcommand]
    have hworld : o.world c m = ((tidy c).exec (o.start m)).2.world := by
      rw [world, hcommand]
    obtain ⟨calls, hcalls, hafter⟩ :=
      exists_calls_reportHotLines c o.asked.formatName (o.start m)
    rw [← hrun] at hcalls hafter
    rw [← hworld] at hafter
    rw [h.held?_of_calls hcalls hafter, hworld]
    exact held?_tidy hlink h
  | clean =>
    have hrun : o.run c m = (tidy c).exec (o.start m) := by
      rw [run, CommandLine.Invocation.pipeline, hcommand]
    rw [next, hrun]
    exact held?_tidy hlink h
  | annotate =>
    have hrun : o.run c m = (reportingFailure (reportFound c o.asked.formatName)).exec
        (o.start m) := by
      rw [run, CommandLine.Invocation.pipeline, hcommand]
      rfl
    have hworld : o.world c m = (o.start m).world := world_eq_start (by simp [hcommand])
    have htools := byTools_reportingFailure (byTools_reportFound c o.asked.formatName)
    obtain ⟨calls, hcalls, hafter⟩ := htools (o.start m)
    rw [← hrun] at hcalls hafter
    rw [← hworld] at hafter
    rw [h.held?_of_calls hcalls hafter, hworld]
    rfl
  | check =>
    have hrun : o.run c m = (reportPrerequisites c).exec (o.start m) := by
      rw [run, CommandLine.Invocation.pipeline, hcommand]
    rw [next, hrun]
    rcases exec_reportPrerequisites_cases c (o.start m) with hview | hview
    · rw [hview]
      rfl
    · rw [hview]
      have hlink' : (o.start m).view.NoLink (o.probe c) := h.probe_noLink
      have hne : ¬ (o.start m).view.SamePlace c.flamegraph (o.probe c) := h.probe_elsewhere
      exact held?_probeWriting (m := o.start m) hlink' hne

/-- An operation that has drawn a graph leaves it at its path. -/
theorem Harmless.held?_of_drawn (h : o.Harmless c m) (hlink : m.view.NoLink c.flamegraph)
    {graph : Bytes} (hdrawn : o.drawn? c m = some graph) :
    hasNul c.flamegraph = false ∧ ∃ executable,
      (o.next c m).view.held? c.flamegraph = some (.file graph executable) := by
  unfold drawn? at hdrawn
  split at hdrawn
  · rename_i hcommand hzero
    cases hdrawn
    have hworld : o.world c m = (o.start m).world := world_eq_start (by simp [hcommand])
    have hrun := run_eq_drawFlamegraph (c := c) (m := m) hcommand
    rw [hrun] at hzero
    have hdraw : CanDraw c (o.start m) := by
      by_contra hstops
      exact (exec_drawFlamegraph_of_not_canDraw hstops).1 hzero
    obtain ⟨m', hexec, hwrite, hlength⟩ := exec_drawFlamegraph_of_canDraw hdraw
    have hnext : o.next c m = m' := by
      rw [next, hrun, hexec]
    have hbefore : ((o.start m).world.after 5).view.held? c.flamegraph =
        m.view.held? c.flamegraph := by
      rw [← hworld]
      have hstart : (o.world c m).view.held? c.flamegraph = m.view.held? c.flamegraph := by
        rw [hworld]
        rfl
      refine (World.held?_after fun k hk => h.tools k ?_).trans hstart
      have hstarted : m'.calls.length = m.calls.length + 5 := hlength
      rw [hnext, hstarted]
      exact Nat.add_lt_add_left hk _
    rw [hnext]
    refine ⟨hdraw.2.1, View.held?_write ?_ hwrite⟩
    intro target
    rw [hbefore]
    exact hlink target
  · cases hdrawn

end Operation

/-! ## Histories -/

/-- The machine `m` is reached from the machine `start` by operations that are harmless to the flame
graph, the latest of which that has drawn a graph has drawn `latest`. -/
inductive History (c : Config) (start : Machine) : Machine → Option Bytes → Prop where
  | nil : History c start start none
  | step {m : Machine} {latest : Option Bytes} (o : Operation) :
      History c start m latest → o.Harmless c m →
      History c start (o.next c m) ((o.drawn? c m).or latest)

/-- What is known of the path of the graph at any time. -/
structure HoldsGraph (c : Config) (start m : Machine) (latest : Option Bytes) : Prop where
  noLink : m.view.NoLink c.flamegraph
  drawn : ∀ graph, latest = some graph → hasNul c.flamegraph = false ∧
    ∃ executable, m.view.held? c.flamegraph = some (.file graph executable)
  undrawn : latest = none → m.view.held? c.flamegraph = start.view.held? c.flamegraph

section History

variable {c : Config} {start m : Machine} {latest : Option Bytes}

theorem HoldsGraph.step {o : Operation} (h : HoldsGraph c start m latest)
    (ho : o.Harmless c m) : HoldsGraph c start (o.next c m) ((o.drawn? c m).or latest) := by
  cases hdrawn : o.drawn? c m with
  | none =>
    have hheld := ho.held?_of_not_drawn h.noLink hdrawn
    rw [Option.none_or]
    constructor
    · intro target
      rw [hheld]
      exact h.noLink target
    · intro graph hlatest
      rw [hheld]
      exact h.drawn graph hlatest
    · intro hlatest
      rw [hheld]
      exact h.undrawn hlatest
  | some graph =>
    obtain ⟨hnul, executable, hheld⟩ := ho.held?_of_drawn h.noLink hdrawn
    rw [Option.some_or]
    constructor
    · exact View.noLink_of_file hheld
    · intro graph' hlatest
      cases hlatest
      exact ⟨hnul, executable, hheld⟩
    · intro hlatest
      cases hlatest

theorem History.holdsGraph (hstart : start.view.NoLink c.flamegraph)
    (h : History c start m latest) : HoldsGraph c start m latest := by
  induction h with
  | nil => exact ⟨hstart, nofun, fun _ => rfl⟩
  | step o _ ho ih => exact ih.step ho

/-- **The flame graph through any history.** At every time the path of the graph holds the graph of
the latest drawing that has succeeded, and what it held at the start if none has. -/
theorem flamegraph_of_history (hstart : start.view.NoLink c.flamegraph)
    (h : History c start m latest) :
    (∀ graph, latest = some graph → m.view.read? c.flamegraph = .ok (some graph)) ∧
      (latest = none → m.view.held? c.flamegraph = start.view.held? c.flamegraph) := by
  have hholds := h.holdsGraph hstart
  refine ⟨fun graph hlatest => ?_, hholds.undrawn⟩
  obtain ⟨hnul, executable, hheld⟩ := hholds.drawn graph hlatest
  exact View.read?_of_held? hnul hheld

end History

/-! ### A graph that is drawn and kept -/

theorem World.view_after_of_silent {w : World} (h : ∀ r ∈ w.replies, r.changes = []) (k : Nat) :
    (w.after k).view = w.view := by
  induction k generalizing w with
  | zero => rfl
  | succ k ih =>
    have hnext : w.next.view = w.view := by
      have hreply : w.reply.changes = [] := by
        unfold World.reply
        cases hreplies : w.replies with
        | nil => rfl
        | cons r rest => exact h r (by simp [hreplies])
      show (w.reply.effect w.view).2 = w.view
      rw [Reply.effect, hreply]
      rfl
    have hrest := ih (w := w.next) fun r hr => h r (List.mem_of_mem_tail hr)
    show (w.next.after k).view = w.view
    rw [hrest, hnext]

/-- An operation whose tools change no file, where there are no outputs. -/
theorem harmless_of_silent {o : Operation} {c : Config} {m : Machine}
    (hsilent : ∀ r ∈ o.replies, r.changes = [])
    (hcommand : o.asked.command ≠ .profileInstrumentation)
    (hnone : outputs m.view c.workDir c.outputPattern = .ok [])
    (hlink : m.view.NoLink (o.probe c)) (helse : ¬ m.view.SamePlace c.flamegraph (o.probe c)) :
    o.Harmless c m := by
  constructor
  · intro k _
    rw [Operation.world_eq_start hcommand, World.view_after_of_silent hsilent,
      World.view_after_of_silent hsilent]
  · intro pattern q hpattern hq
    rw [outputs, hpattern] at hnone
    have hfound : filesFound m.view c.workDir pattern = .ok [] := mapError_eq_ok_iff.mp hnone
    cases (mem_filesFound_iff hfound).mpr hq
  · exact hlink
  · exact helse

/-- The drawing of a graph of one byte. -/
def drawing : Operation where
  asked := { command := .profileSampling }
  process := 1
  refused := fun _ => false
  replies := [.silent, .silent, .silent, .silent, ⟨[], .finished 0 [1]⟩]

/-- A cleaning behind it. -/
def laterCleaning : Operation where
  asked := { command := .clean }
  process := 1
  refused := fun _ => false
  replies := []

/-- The directory `/p` with the graph. -/
def drawnView : View :=
  (loneDirectory "p").insert ["p", "flamegraph.svg"] (.file [1] false) (by decide +kernel)

theorem locate_probe {v : View} (h : v.tree.get? ["p"] = some .directory) :
    v.locate .findLink (drawing.probe loneOutputConfig) =
      .ok ⟨["p", ".perfchain_write_test_1"], 0⟩ := by
  have hprobe : drawing.probe loneOutputConfig = ⟨.slash, ["p", ".perfchain_write_test_1"]⟩ := by
    rfl
  have htop : NamesEntry ⟨[], 0⟩ "p" := ⟨by decide, by decide, by decide, rfl, by decide⟩
  have hname : NamesEntry ⟨["p"], 0⟩ ".perfchain_write_test_1" :=
    ⟨by decide, by decide, by decide, rfl, by decide +kernel⟩
  have hlast : v.tree.at? ⟨["p"], 0⟩ = some .directory := h
  rw [hprobe, View.locate_eq_ok_iff]
  exact ⟨by decide +kernel, .enter rfl htop (by simp [GoesOn]) h rfl (.last hlast hname)⟩

theorem probe_apart {v : View} (hdir : v.tree.get? ["p"] = some .directory)
    (hnone : v.tree.get? ["p", ".perfchain_write_test_1"] = none)
    (hgraph : v.locate .findLink loneOutputConfig.flamegraph = .ok ⟨["p", "flamegraph.svg"], 0⟩) :
    v.NoLink (drawing.probe loneOutputConfig) ∧
      ¬ v.SamePlace loneOutputConfig.flamegraph (drawing.probe loneOutputConfig) := by
  have hprobe := locate_probe hdir
  constructor
  · intro target hheld
    obtain ⟨spot, hspot, hthere⟩ := View.held?_eq_some_iff.mp hheld
    obtain rfl := Except.ok.inj (hprobe.symm.trans hspot)
    change v.tree.get? ["p", ".perfchain_write_test_1"] = some (.link target) at hthere
    rw [hnone] at hthere
    cases hthere
  · rintro ⟨spot, hspot, hspot'⟩
    rw [hgraph] at hspot
    rw [hprobe, ← hspot] at hspot'
    revert hspot'
    decide

theorem harmless_drawing : drawing.Harmless loneOutputConfig (loneOutputMachine []) := by
  obtain ⟨hlink, helse⟩ := probe_apart (v := loneDirectory "p") rfl rfl (by cbv)
  exact harmless_of_silent (by simp [drawing, Reply.silent]) (by decide) (by cbv) hlink helse

theorem drawn_drawing :
    drawing.drawn? loneOutputConfig (loneOutputMachine []) = some [1] ∧
      (drawing.next loneOutputConfig (loneOutputMachine [])).view = drawnView := by
  have hsilent : ∀ r ∈ (drawing.start (loneOutputMachine [])).world.replies, r.changes = [] := by
    show ∀ r ∈ drawing.replies, r.changes = []
    simp [drawing, Reply.silent]
  have hview : ((drawing.start (loneOutputMachine [])).world.after 5).view = loneDirectory "p" :=
    World.view_after_of_silent hsilent 5
  have hlast : (drawing.start (loneOutputMachine [])).world.outcomeAt 4 = .finished 0 [1] := by cbv
  have houtput : ((drawing.start (loneOutputMachine [])).world.outcomeAt 4).output = [1] := by
    rw [hlast]
    rfl
  have hpass : ∀ k < 5, ((drawing.start (loneOutputMachine [])).world.outcomeAt k).Passes := by
    intro k hk
    interval_cases k
    · exact ⟨[], by cbv⟩
    · exact ⟨[], by cbv⟩
    · exact ⟨[], by cbv⟩
    · exact ⟨[], by cbv⟩
    · exact ⟨[1], hlast⟩
  have hwrite : (loneDirectory "p").write loneOutputConfig.flamegraph [1] = .ok drawnView := by cbv
  have hdraw : CanDraw loneOutputConfig (drawing.start (loneOutputMachine [])) := by
    refine ⟨hpass, ?_⟩
    rw [hview, houtput]
    exact ⟨by decide +kernel, drawnView, hwrite⟩
  have hdrawn := Operation.drawn?_of_canDraw (o := drawing) (m := loneOutputMachine []) rfl hdraw
  obtain ⟨m', hexec, hwritten, -⟩ := exec_drawFlamegraph_of_canDraw hdraw
  rw [houtput] at hdrawn
  rw [hview, houtput, hwrite] at hwritten
  rw [Operation.next, Operation.run_eq_drawFlamegraph (o := drawing) rfl, hexec]
  exact ⟨hdrawn, (Except.ok.inj hwritten).symm⟩

theorem harmless_laterCleaning :
    laterCleaning.Harmless loneOutputConfig
      (drawing.next loneOutputConfig (loneOutputMachine [])) := by
  have hview := drawn_drawing.2
  obtain ⟨hlink, helse⟩ := probe_apart (v := drawnView) rfl rfl (by cbv)
  refine harmless_of_silent (by simp [laterCleaning]) (by decide) ?_ ?_ ?_
  · rw [hview]
    cbv
  · rw [hview]
    exact hlink
  · rw [hview]
    exact helse

theorem flamegraph_of_drawing :
    ∃ m, History loneOutputConfig (loneOutputMachine []) m (some [1]) ∧
      m.view.read? loneOutputConfig.flamegraph = .ok (some [1]) := by
  have hstart : (loneOutputMachine []).view.NoLink loneOutputConfig.flamegraph := by
    intro target hheld
    have hnone : (loneOutputMachine []).view.held? loneOutputConfig.flamegraph = none := by cbv
    rw [hnone] at hheld
    cases hheld
  have hdrawn := History.step drawing .nil harmless_drawing
  rw [drawn_drawing.1] at hdrawn
  have hcleaned := History.step laterCleaning hdrawn harmless_laterCleaning
  exact ⟨_, hcleaned, (flamegraph_of_history hstart hcleaned).1 [1] rfl⟩

end HotPath
