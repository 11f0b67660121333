import HotPath.CommandLine.Program
import HotPath.Proofs.Pipeline.History

/-!
# The calls of a command

A command has a list of stages. Its run goes through them in order: a stage is started if the tools
of all stages before it have passed, and the annotator moreover only on outputs that are there
(`Schedule`). So the call `k` of a run is the call of the stage `k` (`Schedule.exists_of_call`), and
it is known which calls are made (`Schedule.lt_length_iff`). Every pipeline runs like that
(`exists_schedule`).
-/

namespace HotPath

open FileSystem Glob Run CommandLine

/-- The stages of a command, in the order in which their tools are started. -/
def CommandLine.Command.stages : Command → List Stage
  | .profileSampling => [.build, .sample, .exportTrace, .fold, .render]
  | .profileInstrumentation => [.build, .instrument, .annotate]
  | .annotate => [.annotate]
  | .clean | .check => []

/-- The outputs that a stage is started on: those that are there if it is the annotation, which is
not started without any, and else none. -/
def StartsOn (c : Config) (s : Stage) (v : View) (files : List Path) : Prop :=
  if s = .annotate then files ≠ [] ∧ outputs v c.workDir c.outputPattern = .ok files else files = []

/-- The calls of stages that are gone through in a world. -/
inductive Schedule (c : Config) : List Stage → World → List Call → Prop where
  | done {w : World} : Schedule c [] w []
  | stays {s : Stage} {stages : List Stage} {w : World} :
      (∀ files, ¬ StartsOn c s w.view files) → Schedule c (s :: stages) w []
  | fails {s : Stage} {stages : List Stage} {w : World} {files : List Path}
      {input : Option Bytes} :
      StartsOn c s w.view files → ¬ w.outcome.Passes →
        Schedule c (s :: stages) w [callOf c s files input]
  | passes {s : Stage} {stages : List Stage} {w : World} {files : List Path}
      {input : Option Bytes} {calls : List Call} :
      StartsOn c s w.view files → w.outcome.Passes → Schedule c stages w.next calls →
        Schedule c (s :: stages) w (callOf c s files input :: calls)

namespace Schedule

variable {c : Config} {stages : List Stage} {w : World} {calls : List Call} {k : Nat}

/-- Each call is the call of the stage in its place. -/
theorem exists_of_call (h : Schedule c stages w calls) {call : Call} (hk : calls[k]? = some call) :
    ∃ s files input, stages[k]? = some s ∧ StartsOn c s (w.after k).view files ∧
      call = callOf c s files input := by
  induction h generalizing k with
  | done => cases hk
  | stays => cases hk
  | @fails s stages w files input hstart hfails =>
    cases k with
    | zero => exact ⟨s, files, input, rfl, hstart, (Option.some.inj hk).symm⟩
    | succ k => cases hk
  | @passes s stages w files input calls hstart hpass _ ih =>
    cases k with
    | zero => exact ⟨s, files, input, rfl, hstart, (Option.some.inj hk).symm⟩
    | succ k => exact ih hk

/-- All stages before the stage `k` have passed, and all up to it can be started. -/
def Reaches (c : Config) (stages : List Stage) (w : World) (k : Nat) : Prop :=
  (∀ j < k, (w.outcomeAt j).Passes) ∧
    ∀ j ≤ k, ∀ s, stages[j]? = some s → ∃ files, StartsOn c s (w.after j).view files

theorem reaches_zero_iff {s : Stage} :
    Reaches c (s :: stages) w 0 ↔ ∃ files, StartsOn c s w.view files := by
  refine ⟨fun h => h.2 0 le_rfl s rfl, fun h => ⟨fun j hj => absurd hj (Nat.not_lt_zero j), ?_⟩⟩
  intro j hj s' hs'
  obtain rfl := Nat.le_zero.mp hj
  obtain rfl : s = s' := Option.some.inj hs'
  exact h

theorem reaches_succ_iff {s : Stage} :
    Reaches c (s :: stages) w (k + 1) ↔
      (∃ files, StartsOn c s w.view files) ∧ w.outcome.Passes ∧ Reaches c stages w.next k := by
  constructor
  · rintro ⟨hpasses, hstarts⟩
    exact ⟨hstarts 0 (Nat.zero_le _) s rfl, hpasses 0 (Nat.succ_pos k),
      fun j hj => hpasses (j + 1) (by omega),
      fun j hj s' hs' => hstarts (j + 1) (by omega) s' hs'⟩
  · rintro ⟨hstart, hpass, hpasses, hstarts⟩
    constructor
    · intro j hj
      cases j with
      | zero => exact hpass
      | succ j => exact hpasses j (by omega)
    · intro j hj s' hs'
      cases j with
      | zero =>
        obtain rfl : s = s' := Option.some.inj hs'
        exact hstart
      | succ j => exact hstarts j (by omega) s' hs'

/-- Exactly the stages that are reached are started. -/
theorem lt_length_iff (h : Schedule c stages w calls) (hk : k < stages.length) :
    k < calls.length ↔ Reaches c stages w k := by
  induction h generalizing k with
  | done => exact absurd hk (Nat.not_lt_zero k)
  | @stays s stages w hnone =>
    have hstart : ¬ ∃ files, StartsOn c s w.view files := fun ⟨files, h⟩ => hnone files h
    cases k with
    | zero => simp [reaches_zero_iff, hstart]
    | succ k => simp [reaches_succ_iff, hstart]
  | @fails s stages w files input hstart hfails =>
    cases k with
    | zero => exact iff_of_true Nat.one_pos (reaches_zero_iff.mpr ⟨files, hstart⟩)
    | succ k => simp [reaches_succ_iff, hfails]
  | @passes s stages w files input calls hstart hpass _ ih =>
    cases k with
    | zero => exact iff_of_true (Nat.succ_pos _) (reaches_zero_iff.mpr ⟨files, hstart⟩)
    | succ k =>
      rw [List.length_cons, Nat.succ_lt_succ_iff, ih (Nat.lt_of_succ_lt_succ hk),
        reaches_succ_iff]
      exact ⟨fun h => ⟨⟨files, hstart⟩, hpass, h⟩, fun h => h.2.2⟩

end Schedule

/-! ## Actions that follow a schedule -/

namespace Run

variable {c : Config} {s : Stage} {stages : List Stage} {α : Type}

/-- The action makes the calls of the stages, on whatever machine it is run. -/
def Follows (c : Config) (stages : List Stage) (action : Run α) : Prop :=
  ∀ m, ∃ calls, (action.exec m).2.calls = m.calls ++ calls ∧ Schedule c stages m.world calls

theorem follows_nil {action : Run α} (h : ∀ m, (action.exec m).2.calls = m.calls) :
    Follows c [] action := by
  intro m
  exact ⟨[], by rw [h, List.append_nil], .done⟩

/-- The calls of a stage and of what is done behind it. -/
theorem exists_calls_of_startsOn {m : Machine} {files : List Path} {input : Option Bytes}
    {next : Bytes → Run α} (hstart : StartsOn c s m.view files)
    (hnext : ∀ data, Follows c stages (next data)) :
    ∃ calls, ((perform c s files input >>= next).exec m).2.calls = m.calls ++ calls ∧
      Schedule c (s :: stages) m.world calls := by
  by_cases hpass : m.world.outcome.Passes
  · rw [exec_bind_ok (exec_perform_of_passes c s files input hpass)]
    obtain ⟨calls, hcalls, hschedule⟩ :=
      hnext (keptBy s m.world.outcome) (m.afterCall (callOf c s files input))
    refine ⟨callOf c s files input :: calls, ?_, .passes hstart hpass hschedule⟩
    rw [hcalls]
    exact List.append_assoc m.calls [_] calls
  · obtain ⟨fault, hexec, -⟩ := exec_perform_of_fails c s files input hpass
    rw [exec_bind_error hexec]
    exact ⟨_, rfl, .fails hstart hpass⟩

theorem Follows.perform (hs : s ≠ .annotate) {input : Option Bytes} {next : Bytes → Run α}
    (hnext : ∀ data, Follows c stages (next data)) :
    Follows c (s :: stages) (perform c s [] input >>= next) := by
  intro m
  have hstart : StartsOn c s m.view [] := by
    rw [StartsOn, if_neg hs]
  exact exists_calls_of_startsOn hstart hnext

theorem Follows.reportingFailure {action : Run Int} (h : Follows c stages action) :
    Follows c stages (reportingFailure action) := by
  intro m
  rw [calls_reportingFailure]
  exact h m

theorem follows_reportFound (c : Config) (format : String) :
    Follows c [.annotate] (reportFound c format) := by
  intro m
  have hfind : (findOutputs c.workDir c.outputPattern).exec m =
      ((outputs m.view c.workDir c.outputPattern).mapError OutputsError.fault, m) := by
    rw [findOutputs, exec_bind_ok (exec_get m), exec_lift]
  rw [reportFound_eq_bind]
  cases hfound : outputs m.view c.workDir c.outputPattern with
  | error e =>
    rw [hfound] at hfind
    rw [exec_bind_error hfind]
    refine ⟨[], by rw [List.append_nil], .stays fun files hstart => ?_⟩
    have hok : outputs m.view c.workDir c.outputPattern = .ok files := hstart.2
    rw [hfound] at hok
    cases hok
  | ok files =>
    rw [hfound] at hfind
    rw [exec_bind_ok hfind]
    by_cases hnil : files = []
    · rw [if_pos hnil]
      have hquiet := (quiet_showReport format []).bind fun _ => handling_leads.pure (0 : Int)
      refine ⟨[], by rw [(hquiet m).calls, List.append_nil], .stays fun files' hstart => ?_⟩
      have hok : outputs m.view c.workDir c.outputPattern = .ok files' := hstart.2
      rw [hfound, hnil] at hok
      exact hstart.1 (Except.ok.inj hok).symm
    · rw [if_neg hnil]
      exact exists_calls_of_startsOn ⟨hnil, hfound⟩ fun annotated =>
        follows_nil fun m => (quiet_reportAnnotated c format annotated m).calls

theorem follows_buildAndReport (c : Config) (format : String) :
    Follows c [.build, .instrument, .annotate] (buildAndReport c format) := by
  refine Follows.perform (by decide) fun _ => Follows.perform (by decide) fun _ => ?_
  exact follows_reportFound c format

theorem follows_drawFlamegraph (c : Config) :
    Follows c [.build, .sample, .exportTrace, .fold, .render] (drawFlamegraph c) := by
  apply Follows.reportingFailure
  refine Follows.perform (by decide) fun _ => Follows.perform (by decide) fun _ => ?_
  refine Follows.perform (by decide) fun trace => Follows.perform (by decide) fun folded => ?_
  refine Follows.perform (by decide) fun graph => follows_nil fun m => ?_
  change ((finishGraph c graph).exec m).2.calls = m.calls
  by_cases hwrite : CanWrite m.view c.flamegraph graph
  · obtain ⟨m', hfinish, -, -, hcalls, -⟩ := exec_finishGraph_of_canWrite hwrite
    rw [hfinish]
    exact hcalls
  · obtain ⟨fault, hfinish, -⟩ := exec_finishGraph_of_not_canWrite hwrite
    rw [hfinish]

theorem calls_reportHotLines_of_not_tidy {c : Config} {m : Machine}
    (h : ((tidy c).exec m).1 ≠ .ok 0) (format : String) :
    ((reportHotLines c format).exec m).2.calls = m.calls := by
  have htidy := (noCalls_tidy c m).made
  rw [reportHotLines_eq_bind, exec_bind]
  generalize (tidy c).exec m = ended at h htidy
  obtain ⟨result, cleaned⟩ := ended
  cases result with
  | error fault => exact htidy
  | ok status =>
    have hstatus : status ≠ 0 := by
      rintro rfl
      exact h rfl
    dsimp only
    rw [if_pos hstatus]
    exact htidy

end Run

/-! ## Commands -/

/-- The world in which a command starts its tools: behind the cleaning if it is an instrumented
run. -/
def firstWorld (cmd : Command) (c : Config) (m : Machine) : World :=
  match cmd with
  | .profileInstrumentation => ((tidy c).exec m).2.world
  | _ => m.world

/-- A command comes to its stages: an instrumented run only if its cleaning succeeds. -/
def ComesToStages (cmd : Command) (c : Config) (m : Machine) : Prop :=
  cmd = .profileInstrumentation → ((tidy c).exec m).1 = .ok 0

/-- **Calls.** A command that comes to its stages makes their calls, and else makes none. -/
theorem exists_schedule (i : Invocation) (c : Config) (m : Machine) :
    ∃ calls, ((i.pipeline c).exec m).2.calls = m.calls ++ calls ∧
      (ComesToStages i.command c m →
        Schedule c i.command.stages (firstWorld i.command c m) calls) ∧
      (¬ ComesToStages i.command c m → calls = []) := by
  have hcomes (h : i.command ≠ .profileInstrumentation) : ComesToStages i.command c m :=
    fun h' => absurd h' h
  unfold Invocation.pipeline
  cases hcommand : i.command with
  | profileSampling =>
    rw [hcommand] at hcomes
    obtain ⟨calls, hcalls, hschedule⟩ := follows_drawFlamegraph c m
    exact ⟨calls, hcalls, fun _ => hschedule, fun h => absurd (hcomes nofun) h⟩
  | annotate =>
    rw [hcommand] at hcomes
    obtain ⟨calls, hcalls, hschedule⟩ := (follows_reportFound c i.formatName).reportingFailure m
    exact ⟨calls, hcalls, fun _ => hschedule, fun h => absurd (hcomes nofun) h⟩
  | clean =>
    exact ⟨[], (noCalls_tidy c m).made.trans (List.append_nil _).symm, fun _ => .done, fun _ => rfl⟩
  | check =>
    exact ⟨[], (noCalls_reportPrerequisites c m).made.trans (List.append_nil _).symm, fun _ => .done,
      fun _ => rfl⟩
  | profileInstrumentation =>
    by_cases htidy : ((tidy c).exec m).1 = .ok 0
    · have hexec := exec_reportHotLines_of_tidy (Prod.ext htidy rfl) i.formatName
      obtain ⟨calls, hcalls, hschedule⟩ :=
        (follows_buildAndReport c i.formatName).reportingFailure ((tidy c).exec m).2
      refine ⟨calls, ?_, fun _ => hschedule, fun h => absurd (fun _ => htidy) h⟩
      dsimp only
      rw [hexec, hcalls, (noCalls_tidy c m).made]
    · refine ⟨[], ?_, fun h => absurd (h rfl) htidy, fun _ => rfl⟩
      exact (calls_reportHotLines_of_not_tidy htidy _).trans (List.append_nil _).symm

end HotPath
