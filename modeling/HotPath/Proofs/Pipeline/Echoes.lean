import HotPath.Proofs.Pipeline.Schedule
import HotPath.Proofs.Shell.Quoting

/-!
# Commands that are shown

Whatever the tools do, a pipeline shows each command on standard error once, right before it starts
the tool: the line is the last thing that stands there at the start (`Shows`). Nothing else is put
there from the first tool on but one closing line, and the failure that it may tell of is that of
the last tool. What a command does before its tools starts none (`Command.preparation`,
`noCalls_preparation`).

The lines can be read back. A shell reads behind the `+` of an echo, and behind the headline of a
failure, the words of the command as they were handed to the tool (`commands_shown`).

* `Echoes`: an action that puts nothing but its commands on standard error. It speaks of the fault
  too, so it is no relation between machines alone; but it is `Sequential`.
-/

namespace HotPath

open FileSystem CommandLine Run

/-! ## The text of calls -/

/-- The line that shows a call. -/
def Call.echo (call : Call) : String := "+ " ++ Shell.join call.command ++ "\n"

/-- The lines that show some calls. -/
def echoesOf : List Call → String
  | [] => ""
  | call :: calls => call.echo ++ echoesOf calls

/-- What stands on standard error at the start of each call, where nothing but the lines of the
calls is added to a text. -/
def shownAt (text : String) : List Call → List String
  | [] => []
  | call :: calls => (text ++ call.echo) :: shownAt (text ++ call.echo) calls

theorem echoesOf_append (calls calls' : List Call) :
    echoesOf (calls ++ calls') = echoesOf calls ++ echoesOf calls' := by
  induction calls with
  | nil => exact (String.empty_append).symm
  | cons call calls ih =>
    rw [List.cons_append, echoesOf, echoesOf, ih, String.append_assoc]

theorem shownAt_append (text : String) (calls calls' : List Call) :
    shownAt text (calls ++ calls') =
      shownAt text calls ++ shownAt (text ++ echoesOf calls) calls' := by
  induction calls generalizing text with
  | nil =>
    rw [echoesOf, String.append_empty]
    rfl
  | cons call calls ih =>
    rw [List.cons_append, shownAt, shownAt, ih, echoesOf, String.append_assoc]
    rfl

/-- A shell reads the words of the command in the line that shows it. -/
theorem Call.exists_echo (call : Call) :
    ∃ tail, call.echo = "+ " ++ tail ++ "\n" ∧ Shell.split tail = .ok call.command :=
  ⟨Shell.join call.command, rfl, Shell.split_join call.command⟩

/-- A shell reads the words of the command behind the headline of its failure. -/
theorem Failure.exists_message (f : Failure) :
    ∃ tail, f.message = f.kind.name ++ ": " ++ f.stage ++ " failed (" ++ f.reason ++ "): " ++ tail ∧
      Shell.split tail = .ok f.command :=
  ⟨Shell.join f.command, rfl, Shell.split_join f.command⟩

/-! ## From one machine to a later one -/

/-- Between two machines some calls were made. Each was shown once, and that right before it was
made; behind the last one stands a closing text. -/
structure Shows (m m' : Machine) (calls : List Call) (closing : String) : Prop where
  made : m'.calls = m.calls ++ calls
  shown : m'.shown = m.shown ++ shownAt m.err calls
  err : m'.err = m.err ++ echoesOf calls ++ closing

theorem shows_self {m m' : Machine} (hcalls : m'.calls = m.calls) (hshown : m'.shown = m.shown)
    (herr : m'.err = m.err) : Shows m m' [] "" := by
  refine ⟨by rw [hcalls, List.append_nil], by rw [hshown, shownAt, List.append_nil], ?_⟩
  rw [herr, echoesOf, String.append_empty, String.append_empty]

theorem shows_afterCall (m : Machine) (call : Call) : Shows m (m.afterCall call) [call] "" := by
  have herr : (m.afterCall call).err = m.err ++ call.echo := by
    rw [Call.echo, ← String.append_assoc]
    rfl
  refine ⟨rfl, ?_, ?_⟩
  · rw [shownAt, shownAt, ← herr]
    rfl
  · rw [herr, echoesOf, echoesOf, String.append_empty, String.append_empty]

theorem Shows.trans {m m' m'' : Machine} {calls calls' : List Call} {closing : String}
    (h : Shows m m' calls "") (h' : Shows m' m'' calls' closing) :
    Shows m m'' (calls ++ calls') closing := by
  have herr : m'.err = m.err ++ echoesOf calls := by rw [h.err, String.append_empty]
  constructor
  · rw [h'.made, h.made, List.append_assoc]
  · rw [h'.shown, h.shown, herr, shownAt_append, List.append_assoc]
  · rw [h'.err, herr, echoesOf_append, ← String.append_assoc]

/-- A line that is put on standard error behind the last call. -/
theorem Shows.close {m m' : Machine} {calls : List Call} (h : Shows m m' calls "")
    (line : String) : Shows m { m' with err := m'.err ++ line ++ "\n" } calls (line ++ "\n") := by
  refine ⟨h.made, h.shown, ?_⟩
  rw [h.err, String.append_empty, String.append_assoc]

namespace Run

variable {α β ε : Type} {c : Config} {m : Machine} {action : Run α}

/-! ## Actions that show their commands -/

/-- A stage that has failed is the last one that was called. -/
def FailsLast (calls : List Call) (result : Except Fault α) : Prop :=
  ∀ failure, result = .error (.stage failure) →
    ∃ call, calls.getLast? = some call ∧ failure.command = call.command

/-- On whatever machine it is run, the action puts nothing but its commands on standard error. -/
def Echoes (action : Run α) : Prop :=
  ∀ m, ∃ calls, Shows m (action.exec m).2 calls "" ∧ FailsLast calls (action.exec m).1

theorem echoes_of_quiet (h : ∀ m, Shows m (action.exec m).2 [] "")
    (hresult : ∀ m failure, (action.exec m).1 ≠ .error (.stage failure)) : Echoes action :=
  fun m => ⟨[], h m, fun failure hfailure => absurd hfailure (hresult m failure)⟩

theorem echoes_pure (a : α) : Echoes (pure a : Run α) :=
  echoes_of_quiet (fun _ => shows_self rfl rfl rfl) fun _ _ => nofun

theorem echoes_get : Echoes (get : Run Machine) :=
  echoes_of_quiet (fun _ => shows_self rfl rfl rfl) fun _ _ => nofun

theorem echoes_printLine (s : String) : Echoes (printLine s) :=
  echoes_of_quiet (fun _ => shows_self rfl rfl rfl) fun _ _ => nofun

theorem echoes_lift {fault : ε → Fault} (hfault : ∀ e failure, fault e ≠ .stage failure)
    (x : Except ε α) : Echoes (lift fault x) := by
  apply echoes_of_quiet
  · intro m
    rw [exec_lift]
    exact shows_self rfl rfl rfl
  · intro m failure h
    rw [exec_lift] at h
    obtain ⟨e, -, he⟩ := mapError_eq_error_iff.mp h
    exact hfault e failure he

theorem Echoes.bind {next : α → Run β} (h : Echoes action) (hnext : ∀ a, Echoes (next a)) :
    Echoes (action >>= next) := by
  intro m
  obtain ⟨calls, hshows, hlast⟩ := h m
  rw [exec_bind]
  generalize action.exec m = ended at hshows hlast
  obtain ⟨result, first⟩ := ended
  cases result with
  | error fault =>
    refine ⟨calls, hshows, fun failure hfailure => hlast failure ?_⟩
    cases hfailure
    rfl
  | ok a =>
    obtain ⟨calls', hshows', hlast'⟩ := hnext a first
    refine ⟨calls ++ calls', hshows.trans hshows', fun failure hfailure => ?_⟩
    obtain ⟨call, hcall, hcommand⟩ := hlast' failure hfailure
    exact ⟨call, by rw [List.getLast?_append, hcall]; rfl, hcommand⟩

theorem sequential_echoes : Sequential fun _ => Echoes where
  pure := echoes_pure
  lift := echoes_lift
  bind := Echoes.bind

/-- The failure of a stage names the command of the stage. -/
theorem command_of_perform_error {s : Stage} {outputs : List Path} {input : Option Bytes}
    {failure : Failure} (h : ((perform c s outputs input).exec m).1 = .error (.stage failure)) :
    failure.command = s.command c outputs := by
  unfold perform reportLine at h
  simp only [exec_bind, exec_modify, exec_start] at h
  generalize ({ m with err := m.err ++ ("+ " ++ Shell.join (s.command c outputs)) ++ "\n" } :
    Machine).world.outcome = outcome at h
  cases outcome with
  | finished code output =>
    by_cases hcode : code ≠ 0
    · dsimp only at h
      rw [dif_pos hcode] at h
      cases h
      rfl
    · dsimp only at h
      rw [dif_neg hcode] at h
      cases h
  | notFound | notExecutable | interrupted =>
    cases h
    rfl
  | badExecutable | broken => cases h

theorem echoes_perform (c : Config) (s : Stage) (outputs : List Path) (input : Option Bytes) :
    Echoes (perform c s outputs input) := by
  intro m
  obtain ⟨result, hexec⟩ := exec_perform c s outputs input m
  refine ⟨[callOf c s outputs input], ?_, fun failure hfailure => ?_⟩
  · rw [hexec]
    exact shows_afterCall m _
  · exact ⟨_, rfl, command_of_perform_error hfailure⟩

theorem echoes_saveFlamegraph (c : Config) (graph : Bytes) : Echoes (saveFlamegraph c graph) := by
  have hcases (m : Machine) : Shows m ((saveFlamegraph c graph).exec m).2 [] "" ∧
      ∀ failure, ((saveFlamegraph c graph).exec m).1 ≠ .error (.stage failure) := by
    rw [saveFlamegraph, exec_writeFile]
    by_cases hnul : hasNul c.flamegraph = true
    · rw [if_pos hnul]
      exact ⟨shows_self rfl rfl rfl, fun _ h => by cases h⟩
    · rw [if_neg hnul]
      cases m.view.write c.flamegraph graph with
      | ok view => exact ⟨shows_self rfl rfl rfl, fun _ h => by cases h⟩
      | error cause => exact ⟨shows_self rfl rfl rfl, fun _ h => by cases h⟩
  exact echoes_of_quiet (fun m => (hcases m).1) fun m => (hcases m).2

theorem echoes_findOutputs (workDir : Path) (pattern : String) :
    Echoes (findOutputs workDir pattern) := by
  refine echoes_get.bind fun _ => echoes_lift (fun e _ => ?_) _
  cases e <;> exact nofun

theorem echoes_hotLines (c : Config) : Echoes (hotLines c) :=
  sequential_echoes.hotLines (echoes_findOutputs _ _) (echoes_perform c)

theorem echoes_reportFound (c : Config) (format : String) : Echoes (reportFound c format) :=
  sequential_echoes.reportFound (echoes_findOutputs _ _) (echoes_perform c) echoes_printLine format

theorem echoes_buildAndReport (c : Config) (format : String) : Echoes (buildAndReport c format) :=
  sequential_echoes.buildAndReport (echoes_findOutputs _ _) (echoes_perform c) echoes_printLine
    format

end Run

/-- What a command does before it starts its tools. Cleaning and checking do nothing else. -/
def CommandLine.Command.preparation (c : Config) : Command → Run Int
  | .profileInstrumentation | .clean => tidy c
  | .check => reportPrerequisites c
  | .profileSampling | .annotate => pure 0

theorem noCalls_preparation (cmd : Command) (c : Config) : Leads NoCalls (cmd.preparation c) := by
  cases cmd with
  | profileInstrumentation | clean => exact noCalls_tidy c
  | check => exact noCalls_reportPrerequisites c
  | profileSampling | annotate => exact handling_leads.pure 0

/-! ## The end of a pipeline -/

/-- What may stand behind the last command: nothing, the place of the flame graph, or the failure of
the last tool. -/
inductive Closing (c : Config) (calls : List Call) : String → Prop where
  | nothing : Closing c calls ""
  | flamegraph : Closing c calls ("Flamegraph: " ++ c.flamegraph.text ++ "\n")
  | failure {failure : Failure} {call : Call} :
      calls.getLast? = some call → failure.command = call.command →
        Closing c calls (failure.message ++ "\n")

/-- From one machine to another, calls were made and shown, and then the pipeline was closed. -/
def ShowsAndCloses (c : Config) (m m' : Machine) : Prop :=
  ∃ calls closing, Shows m m' calls closing ∧ Closing c calls closing

namespace Run

variable {α : Type} {c : Config} {m m' : Machine}

theorem showsAndCloses_reportingFailure {action : Run Int} {calls : List Call}
    (hshows : Shows m (action.exec m).2 calls "") (hlast : FailsLast calls (action.exec m).1) :
    ShowsAndCloses c m ((reportingFailure action).exec m).2 := by
  rw [reportingFailure, exec_tryCatch]
  generalize action.exec m = ended at hshows hlast
  obtain ⟨result, after⟩ := ended
  cases result with
  | ok status => exact ⟨calls, "", hshows, .nothing⟩
  | error fault =>
    cases fault with
    | stage failure =>
      obtain ⟨call, hcall, hcommand⟩ := hlast failure rfl
      exact ⟨calls, _, hshows.close failure.message, .failure hcall hcommand⟩
    | file | nulCharacter | pattern | sourceDir | report | load =>
      exact ⟨calls, "", hshows, .nothing⟩

theorem Echoes.reportingFailure {action : Run Int} (h : Echoes action) (m : Machine) :
    ShowsAndCloses c m ((reportingFailure action).exec m).2 := by
  obtain ⟨calls, hshows, hlast⟩ := h m
  exact showsAndCloses_reportingFailure hshows hlast

theorem echoes_drawing (c : Config) :
    Echoes (relay c samplingLinks [] >>= saveFlamegraph c) :=
  (sequential_echoes.relay (echoes_perform c) samplingLinks []).bind (echoes_saveFlamegraph c)

theorem showsAndCloses_drawFlamegraph (c : Config) (m : Machine) :
    ShowsAndCloses c m ((drawFlamegraph c).exec m).2 := by
  have heq : relay c samplingLinks [] >>= finishGraph c =
      (relay c samplingLinks [] >>= saveFlamegraph c) >>= fun _ =>
        reportLine ("Flamegraph: " ++ c.flamegraph.text) >>= fun _ => pure 0 := by
    rw [bind_assoc]
    rfl
  obtain ⟨calls, hshows, hlast⟩ := echoes_drawing c m
  rw [drawFlamegraph_eq, heq]
  cases hexec : (relay c samplingLinks [] >>= saveFlamegraph c).exec m with
  | mk result after =>
    rw [hexec] at hshows hlast
    cases result with
    | error fault =>
      have hended : FailsLast calls (.error fault : Except Fault Int) := by
        intro failure hfailure
        cases hfailure
        exact hlast failure rfl
      apply showsAndCloses_reportingFailure
      · rw [exec_bind_error hexec]
        exact hshows
      · rw [exec_bind_error hexec]
        exact hended
    | ok saved =>
      rw [exec_reportingFailure_bind hexec]
      exact ⟨calls, _, hshows.close ("Flamegraph: " ++ c.flamegraph.text), .flamegraph⟩

theorem showsAndCloses_self (m : Machine) : ShowsAndCloses c m m :=
  ⟨[], "", shows_self rfl rfl rfl, .nothing⟩

/-- Behind its cleaning, an instrumented run shows its commands. -/
theorem showsAndCloses_reportHotLines (c : Config) (format : String) (m : Machine) :
    ShowsAndCloses c ((tidy c).exec m).2 ((reportHotLines c format).exec m).2 := by
  rw [reportHotLines_eq_bind, exec_bind]
  rcases (tidy c).exec m with ⟨fault | status, cleaned⟩
  · exact showsAndCloses_self cleaned
  · by_cases hstatus : status ≠ 0
    · simp only [if_pos hstatus]
      exact showsAndCloses_self cleaned
    · simp only [if_neg hstatus]
      exact (echoes_buildAndReport c format).reportingFailure cleaned

theorem showsAndCloses_pipeline (i : Invocation) (c : Config) (m : Machine) :
    ShowsAndCloses c ((i.command.preparation c).exec m).2 ((i.pipeline c).exec m).2 := by
  unfold Invocation.pipeline
  cases i.command with
  | profileSampling => exact showsAndCloses_drawFlamegraph c m
  | profileInstrumentation => exact showsAndCloses_reportHotLines c _ m
  | annotate => exact (echoes_reportFound c _).reportingFailure m
  | clean => exact showsAndCloses_self _
  | check => exact showsAndCloses_self _

end Run

/-- **Commands that are shown.** A shell reads quoted words as these words. Whatever a command
starts its tools on, it shows each of their commands once, right before the tool is started, with
nothing behind them but one closing line; so a shell reads the words of the command in what stands
behind the `+`, and those of a failed command in what stands behind its headline. -/
theorem commands_shown :
    (∀ words : List String, Shell.split (Shell.join words) = .ok words) ∧
    (∀ (i : Invocation) (c : Config) (m : Machine),
      NoCalls m ((i.command.preparation c).exec m).2 ∧
        ShowsAndCloses c ((i.command.preparation c).exec m).2 ((i.pipeline c).exec m).2) ∧
    (∀ (c : Config) (m : Machine), ∃ calls, Shows m ((hotLines c).exec m).2 calls "") ∧
    (∀ call : Call,
      ∃ tail, call.echo = "+ " ++ tail ++ "\n" ∧ Shell.split tail = .ok call.command) ∧
    ∀ f : Failure, ∃ tail,
      f.message = f.kind.name ++ ": " ++ f.stage ++ " failed (" ++ f.reason ++ "): " ++ tail ∧
        Shell.split tail = .ok f.command := by
  refine ⟨Shell.split_join, fun i c m => ⟨?_, showsAndCloses_pipeline i c m⟩, fun c m => ?_,
    Call.exists_echo, Failure.exists_message⟩
  · exact noCalls_preparation i.command c m
  · obtain ⟨calls, hshows, -⟩ := echoes_hotLines c m
    exact ⟨calls, hshows⟩

end HotPath
