import HotPath.Pipeline
import HotPath.Proofs.Machine.Runs

/-!
# Calls of tools

The tools and the files they change go their own way: each reply turns one world into the next, and
the program has no part in it. A stage makes one call and goes on only if the tool has ended with
the code zero (`exec_perform_of_passes`, `exec_perform_of_fails`). In a relay of stages each one is
given the output of the one before, and the first that fails is the last that is called
(`exec_relay`).
-/

namespace HotPath

open FileSystem

/-! ## The world of the tools -/

/-- What a tool makes of the files, and how it ends: at a change that fails, it breaks off. -/
def Reply.effect (r : Reply) (v : View) : Outcome × View :=
  match (r.changes.forM Change.make).run v with
  | (.ok (), v') => (r.outcome, v')
  | (.error e, v') => (.ofFileError e, v')

/-- The files, and what the tools will do that are started next. -/
structure World where
  view : View
  replies : List Reply

namespace World

/-- What the next tool does. -/
def reply (w : World) : Reply := w.replies.headD .silent

/-- How the next tool ends. -/
def outcome (w : World) : Outcome := (w.reply.effect w.view).1

/-- The world after the next tool. -/
def next (w : World) : World := ⟨(w.reply.effect w.view).2, w.replies.tail⟩

/-- The world after some tools. -/
def after (w : World) (k : Nat) : World := next^[k] w

/-- How a tool ends that is started after `k` others. -/
def outcomeAt (w : World) (k : Nat) : Outcome := (w.after k).outcome

theorem next_after (w : World) (k : Nat) : (w.after k).next = w.after (k + 1) :=
  (Function.iterate_succ_apply' next k w).symm

end World

namespace Outcome

/-- The tool has ended with the code zero. -/
def Passes (o : Outcome) : Prop := ∃ output, o = .finished 0 output

/-- The output of a tool that has come to its end. -/
def output : Outcome → Bytes
  | finished _ output => output
  | _ => []

/-- What the failure of a tool makes of the program: an exit status, or a fault that goes on. -/
def exit (command : List String) : Outcome → Except Fault Int
  | finished code _ => .ok (if code < 0 then 128 - code else code)
  | notFound => .ok 127
  | notExecutable => .ok 126
  | interrupted => .ok 130
  | badExecutable => .error (.file ⟨.badExecutable, command.headD ""⟩)
  | broken reason => .error (.file reason)

theorem exit_ne_zero {o : Outcome} (h : ¬ o.Passes) (command : List String) :
    o.exit command ≠ .ok 0 := by
  intro hzero
  cases o with
  | finished code output =>
    have hcode : code ≠ 0 := by
      rintro rfl
      exact h ⟨output, rfl⟩
    have hstatus : statusOf code = 0 := Except.ok.inj hzero
    have hpos := statusOf_pos hcode
    omega
  | notFound | notExecutable | interrupted | badExecutable | broken => cases hzero

end Outcome

namespace World

variable {w : World} {j k : Nat}

/-- No tool is started behind one that fails. -/
theorem le_of_passes (hfails : ¬ (w.outcomeAt k).Passes)
    (hpasses : ∀ i < j, (w.outcomeAt i).Passes) : j ≤ k := by
  by_contra hlt
  exact hfails (hpasses k (by omega))

theorem eq_of_fails (hbefore : ∀ i < k, (w.outcomeAt i).Passes)
    (hfails : ¬ (w.outcomeAt k).Passes) (hpasses : ∀ i < j, (w.outcomeAt i).Passes)
    (hfails' : ¬ (w.outcomeAt j).Passes) : j = k :=
  Nat.le_antisymm (le_of_passes hfails hpasses) (le_of_passes hfails' hbefore)

end World

namespace Machine

/-- The world that a machine is in. -/
def world (m : Machine) : World := ⟨m.view, m.replies⟩

/-- The machine after a call, which has been shown. -/
def afterCall (m : Machine) (call : Call) : Machine :=
  { m with
    view := m.world.next.view
    replies := m.world.next.replies
    calls := m.calls ++ [call]
    err := m.err ++ ("+ " ++ Shell.join call.command) ++ "\n"
    shown := m.shown ++ [m.err ++ ("+ " ++ Shell.join call.command) ++ "\n"] }

/-- The machine after some calls. -/
def afterCalls (m : Machine) (calls : List Call) : Machine := calls.foldl afterCall m

variable (m : Machine) (call : Call) (calls : List Call)

theorem afterCalls_cons : m.afterCalls (call :: calls) = (m.afterCall call).afterCalls calls := rfl

theorem world_afterCalls : (m.afterCalls calls).world = m.world.after calls.length := by
  induction calls generalizing m with
  | nil => rfl
  | cons call calls ih => exact ih (m.afterCall call)

theorem view_afterCalls : (m.afterCalls calls).view = (m.world.after calls.length).view :=
  congrArg World.view (m.world_afterCalls calls)

theorem calls_afterCalls : (m.afterCalls calls).calls = m.calls ++ calls := by
  induction calls generalizing m with
  | nil => exact (List.append_nil m.calls).symm
  | cons call calls ih =>
    rw [afterCalls_cons, ih]
    exact List.append_assoc m.calls [call] calls

theorem out_afterCalls : (m.afterCalls calls).out = m.out := by
  induction calls generalizing m with
  | nil => rfl
  | cons call calls ih => exact ih (m.afterCall call)

end Machine

/-! ## Stages -/

/-- What a fault makes of the program: the exit status of a stage that has failed. Other faults go
on. -/
def Fault.exit : Fault → Except Fault Int
  | stage failure => .ok failure.status
  | fault => .error fault

namespace Run

variable {m m' : Machine}

theorem exec_start (call : Call) (m : Machine) :
    (start call).exec m =
      (.ok m.world.outcome,
        { m with
          view := m.world.next.view
          replies := m.world.next.replies
          calls := m.calls ++ [call]
          shown := m.shown ++ [m.err] }) := by
  unfold start edit
  simp only [exec_bind, exec_get, exec_set]
  unfold World.outcome World.next World.reply Reply.effect Machine.world
  generalize m.replies.headD .silent = reply
  dsimp only
  rcases ((reply.changes.forM Change.make).run m.view) with ⟨ending, view⟩
  cases ending with
  | error e => rfl
  | ok => rfl

/-- The call that a stage makes. -/
def callOf (c : Config) (s : Stage) (outputs : List Path) (input : Option Bytes) : Call :=
  ⟨s.command c outputs, c.workDir, input, s.isCaptured⟩

/-- The output that a stage keeps. -/
def keptBy (s : Stage) (o : Outcome) : Bytes := if s.isCaptured then o.output else []

theorem exec_perform_of_passes (c : Config) (s : Stage) (outputs : List Path)
    (input : Option Bytes) (h : m.world.outcome.Passes) :
    (perform c s outputs input).exec m =
      (.ok (keptBy s m.world.outcome), m.afterCall (callOf c s outputs input)) := by
  obtain ⟨output, houtput⟩ := h
  unfold perform reportLine
  simp only [exec_bind, exec_modify, exec_start]
  have hworld : ({ m with err := m.err ++ ("+ " ++ Shell.join (s.command c outputs)) ++ "\n" } :
      Machine).world = m.world := rfl
  rw [hworld, houtput]
  rfl

theorem exec_perform_of_fails (c : Config) (s : Stage) (outputs : List Path)
    (input : Option Bytes) (h : ¬ m.world.outcome.Passes) :
    ∃ fault, (perform c s outputs input).exec m =
        (.error fault, m.afterCall (callOf c s outputs input)) ∧
      fault.exit = m.world.outcome.exit (s.command c outputs) := by
  unfold perform reportLine
  simp only [exec_bind, exec_modify, exec_start]
  have hworld : ({ m with err := m.err ++ ("+ " ++ Shell.join (s.command c outputs)) ++ "\n" } :
      Machine).world = m.world := rfl
  rw [hworld]
  cases houtcome : m.world.outcome with
  | finished code output =>
    have hcode : code ≠ 0 := by
      rintro rfl
      exact h ⟨output, houtcome⟩
    dsimp only
    rw [dif_pos hcode]
    exact ⟨_, rfl, rfl⟩
  | notFound => exact ⟨_, rfl, rfl⟩
  | notExecutable => exact ⟨_, rfl, rfl⟩
  | interrupted => exact ⟨_, rfl, rfl⟩
  | badExecutable => exact ⟨_, rfl, rfl⟩
  | broken reason => exact ⟨_, rfl, rfl⟩

/-! ## Relays -/

/-- A stage of a relay, and whether it is given the output of the one before. -/
structure Link where
  stage : Stage
  fed : Bool

/-- What a stage is given. -/
def Link.given (l : Link) (data : Bytes) : Option Bytes := if l.fed then some data else none

/-- Runs stages one after the other, and gives the output that the last one keeps. -/
def relay (c : Config) : List Link → Bytes → Run Bytes
  | [], data => pure data
  | l :: links, data => do relay c links (← perform c l.stage [] (l.given data))

/-- The calls of a relay if no stage fails. -/
def callsOf (c : Config) : List Link → Bytes → World → List Call
  | [], _, _ => []
  | l :: links, data, w =>
    callOf c l.stage [] (l.given data) :: callsOf c links (keptBy l.stage w.outcome) w.next

/-- The output that the last stage of a relay keeps if no stage fails. -/
def keptByAll : List Link → Bytes → World → Bytes
  | [], data, _ => data
  | l :: links, _, w => keptByAll links (keptBy l.stage w.outcome) w.next

/-- A relay makes all its calls if every tool passes, and otherwise the calls up to the first tool
that fails. -/
theorem exec_relay (c : Config) (links : List Link) (data : Bytes) (m : Machine) :
    (∀ k < links.length, (m.world.outcomeAt k).Passes) ∧
      (relay c links data).exec m =
        (.ok (keptByAll links data m.world), m.afterCalls (callsOf c links data m.world)) ∨
    ∃ k < links.length, (∀ j < k, (m.world.outcomeAt j).Passes) ∧
      ¬ (m.world.outcomeAt k).Passes ∧ ∃ fault call,
        (callsOf c links data m.world)[k]? = some call ∧
        fault.exit = (m.world.outcomeAt k).exit call.command ∧
        (relay c links data).exec m =
          (.error fault, m.afterCalls ((callsOf c links data m.world).take (k + 1))) := by
  induction links generalizing data m with
  | nil => exact .inl ⟨by simp, rfl⟩
  | cons l links ih =>
    by_cases hpass : m.world.outcome.Passes
    · have hhead := exec_perform_of_passes c l.stage [] (l.given data) hpass
      rw [relay, exec_bind_ok hhead, callsOf]
      rcases ih (keptBy l.stage m.world.outcome) (m.afterCall (callOf c l.stage [] (l.given data)))
        with ⟨hall, hrest⟩ | ⟨k, hk, hbefore, hfails, fault, call, hcall, hexit, hrest⟩
      · refine .inl ⟨fun k hk => ?_, hrest⟩
        cases k with
        | zero => exact hpass
        | succ k => exact hall k (by simpa using hk)
      · refine .inr ⟨k + 1, by simpa using hk, fun j hj => ?_, hfails, fault, call, hcall, hexit,
          hrest⟩
        cases j with
        | zero => exact hpass
        | succ j => exact hbefore j (by omega)
    · obtain ⟨fault, hhead, hexit⟩ := exec_perform_of_fails c l.stage [] (l.given data) hpass
      refine .inr ⟨0, by simp, by simp, hpass, fault, _, rfl, hexit, ?_⟩
      rw [relay, exec_bind_error hhead]
      rfl

/-! ## Failures at the end of a pipeline -/

theorem exec_reportingFailure_ok {action : Run Int} {status : Int}
    (h : action.exec m = (.ok status, m')) : (reportingFailure action).exec m = (.ok status, m') := by
  rw [reportingFailure, exec_tryCatch, h]

/-- A failure is reported on standard error, and nothing else is done about it. -/
theorem exec_reportingFailure_error {action : Run Int} {fault : Fault}
    (h : action.exec m = (.error fault, m')) :
    ∃ err, (reportingFailure action).exec m = (fault.exit, { m' with err }) := by
  rw [reportingFailure, exec_tryCatch, h]
  cases fault with
  | stage failure => exact ⟨_, rfl⟩
  | file | nulCharacter | pattern | sourceDir | report | load => exact ⟨m'.err, rfl⟩

end Run

end HotPath
