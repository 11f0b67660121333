import HotPath.Proofs.CommandLine.Reading
import HotPath.Proofs.Loading
import HotPath.Proofs.Pipeline.Schedule
import HotPath.Proofs.Program
import HotPath.Proofs.Shell.Quoting

/-!
# Arguments for tools

Four options have a line of arguments for a tool as their value. The arguments go a long way: they
are quoted in one word of the command line, which is read and set as a request
(`Invocation.parse_insert`), split into a configuration (`load_ask`) and put into the command of a
stage, which a run of the command starts in its place (`handsOn_pipeline`). They come through intact
(`arguments_iff`), with one exception: the word `--` never is a value, so the single argument `--`
leaves the option without one, and no configuration is loaded (`not_forall_arguments`).
-/

namespace HotPath

open FileSystem CommandLine Run

/-- The options whose value is a line of arguments for a tool. -/
inductive ArgumentOption where
  | sampling
  | instrumentation
  | renderer
  | annotate
  deriving DecidableEq

namespace ArgumentOption

def flag : ArgumentOption → Flag
  | sampling => .samplingArgs
  | instrumentation => .instrumentationArgs
  | renderer => .rendererArgs
  | annotate => .annotateArgs

/-- The stage whose tool the arguments are for. -/
def stage : ArgumentOption → Stage
  | sampling => .sample
  | instrumentation => .instrument
  | renderer => .render
  | annotate => .annotate

/-- What stands in front of the arguments in the command of the stage. -/
def front (o : ArgumentOption) (c : Config) : List String :=
  match o with
  | sampling => [c.tools .sampler, "record", "-g", "-o", c.trace.text, "--", c.program.text]
  | instrumentation =>
    [c.tools .instrumenter, "--tool=cachegrind", "--cache-sim=yes", c.program.text]
  | renderer => [c.tools .renderer]
  | annotate => [c.tools .annotator]

/-- The request with another setting of the option. -/
def ask (o : ArgumentOption) (line : Setting String) (r : Request) : Request :=
  match o with
  | sampling => { r with samplingArgs := line }
  | instrumentation => { r with instrumentationArgs := line }
  | renderer => { r with rendererArgs := line }
  | annotate => { r with annotateArgs := line }

/-- The arguments that a configuration holds for the tool. -/
def held (o : ArgumentOption) (c : Config) : List String :=
  match o with
  | sampling => c.samplingArgs
  | instrumentation => c.instrumentationArgs
  | renderer => c.rendererArgs
  | annotate => c.annotateArgs

/-- The configuration with other arguments for the tool. -/
def give (o : ArgumentOption) (args : List String) (c : Config) : Config :=
  match o with
  | sampling => { c with samplingArgs := args }
  | instrumentation => { c with instrumentationArgs := args }
  | renderer => { c with rendererArgs := args }
  | annotate => { c with annotateArgs := args }

@[simp] theorem held_give (o : ArgumentOption) (args : List String) (c : Config) :
    o.held (o.give args c) = args := by
  cases o <;> rfl

/-- The arguments stand in the command of the stage as they are held, and only outputs can stand
behind them. -/
theorem command_stage {o : ArgumentOption} {c : Config} {v : View} {files : List Path}
    (h : StartsOn c o.stage v files) :
    o.stage.command c files = o.front c ++ o.held c ++ files.map (·.text) := by
  cases o with
  | annotate => rfl
  | sampling | instrumentation | renderer =>
    obtain rfl : files = [] := h
    exact (List.append_nil _).symm

theorem exists_stage {o : ArgumentOption} {cmd : Command} (h : o.flag ∈ cmd.flags) :
    ∃ k : Nat, cmd.stages[k]? = some o.stage := by
  have hmem : o.stage ∈ cmd.stages := by
    cases o <;> cases cmd <;> revert h <;> decide
  exact List.mem_iff_getElem?.mp hmem

end ArgumentOption

/-! ## From the command line to the request -/

namespace CommandLine.Invocation

variable {o : ArgumentOption} {i : Invocation}

/-- The invocation with another setting of the option. -/
def ask (i : Invocation) (o : ArgumentOption) (line : Setting String) : Invocation :=
  { i with request := o.ask line i.request }

theorem set_flag (i : Invocation) (o : ArgumentOption) (value : String) :
    i.set o.flag value = .ok (i.ask o (settingOf value)) := by
  cases o <;> rfl

/-- Another flag sets the same, whatever the setting of the option. -/
theorem set_ask {f : Flag} (hf : f ≠ o.flag) (line : Setting String) (value : String) :
    (i.ask o line).set f value = (i.set f value).map (·.ask o line) := by
  cases f with
  | topCount =>
    unfold set
    dsimp only
    split <;> cases o <;> rfl
  | format =>
    unfold set
    dsimp only
    split <;> cases o <;> rfl
  | help | workDir | binary | tool | sourceDir => cases o <;> rfl
  | samplingArgs | rendererArgs | instrumentationArgs | annotateArgs =>
    cases o <;> first | rfl | exact absurd rfl hf

theorem set_ask_bind {f : Flag} (hf : f ≠ o.flag) (line : Setting String) (value : String)
    {rest : List Word}
    (hrest : ∀ next, readWords (ask next o line) rest =
      (readWords next rest).map fun r => (r.1.ask o line, r.2)) :
    (((i.ask o line).set f value).mapError (Stop.error (some i.command)) >>= fun next =>
        readWords next rest) =
      ((i.set f value).mapError (Stop.error (some i.command)) >>= fun next =>
        readWords next rest).map fun r => (r.1.ask o line, r.2) := by
  rw [set_ask hf]
  cases i.set f value with
  | error reason => rfl
  | ok next => exact hrest next

/-- Words without the flag of the option read the same, whatever its setting. -/
theorem readWords_ask {words : List Word} (hwords : ∀ value, .flag o.flag value ∉ words)
    (line : Setting String) :
    readWords (i.ask o line) words = (readWords i words).map fun r => (r.1.ask o line, r.2) := by
  fun_induction readWords i words with
  | case1 i => rfl
  | case2 i text rest ih =>
    rw [readWords, ih fun value hmem => hwords value (List.mem_cons_of_mem _ hmem)]
    cases readWords i rest <;> rfl
  | case3 i text rest ih =>
    rw [readWords, ih fun value hmem => hwords value (List.mem_cons_of_mem _ hmem)]
    cases readWords i rest <;> rfl
  | case4 => rfl
  | case5 => rfl
  | case6 i f value rest ih =>
    have hf : f ≠ o.flag := by
      rintro rfl
      exact hwords _ List.mem_cons_self
    rw [readWords]
    exact set_ask_bind hf line value fun next =>
      ih next fun value hmem => hwords value (List.mem_cons_of_mem _ hmem)
  | case7 i f value rest hhelp ih =>
    have hf : f ≠ o.flag := by
      rintro rfl
      exact hwords _ List.mem_cons_self
    rw [readWords]
    · exact set_ask_bind hf line value fun next => ih next fun value hmem =>
        hwords value (List.mem_cons_of_mem _ (List.mem_cons_of_mem _ hmem))
    · exact hhelp
  | case8 i f rest hhelp hplain =>
    rw [readWords]
    · rfl
    · exact hhelp
    · exact hplain

/-- An option that is put among the words of a line sets what it says, if it stands where the line
could end and no word behind it sets it again. -/
theorem parse_insert {c : Command} (hflag : o.flag ∈ c.flags) {front back : List String}
    {i₁ : Invocation} (hfront : parse (c.name :: front) = .ok i₁)
    (hothers : parse (c.name :: (front ++ back)) = .ok i)
    (hback : ∀ text ∈ back, ∀ value, Word.read c.flags text ≠ .ok (.flag o.flag value))
    (line : String) :
    parse (c.name :: (front ++ spelled o.flag line :: back)) = .ok (i.ask o (settingOf line)) := by
  obtain ⟨-, words₁, hwords₁, hread₁⟩ := parse_eq_ok_iff.mp hfront
  obtain ⟨hend, words, hwords, hread⟩ := parse_eq_ok_iff.mp hothers
  rw [List.mapM_append, hwords₁] at hwords
  change (back.mapM (Word.read c.flags) >>= fun words₂ => pure (words₁ ++ words₂)) = _ at hwords
  obtain ⟨words₂, hwords₂, hpair⟩ := bind_eq_ok_iff.mp hwords
  obtain rfl : words₁ ++ words₂ = words := Except.ok.inj hpair
  rw [readWords_append hread₁] at hread
  obtain ⟨⟨i', left⟩, hread₂, hpair⟩ := map_eq_ok_iff.mp hread
  obtain ⟨rfl, rfl⟩ := Prod.mk.inj hpair
  refine parse_eq_ok_iff.mpr ⟨?_, words₁ ++ .flag o.flag (some line) :: words₂, ?_, ?_⟩
  · intro hmem
    rcases List.mem_append.mp hmem with hmem | hmem
    · exact hend (List.mem_append_left back hmem)
    · rcases List.mem_cons.mp hmem with heq | hmem
      · exact spelled_ne_endOfFlags o.flag line heq.symm
      · exact hend (List.mem_append_right front hmem)
  · rw [List.mapM_append, hwords₁, List.mapM_cons, read_spelled hflag, hwords₂]
    rfl
  · have hothers : ∀ value, .flag o.flag value ∉ words₂ := by
      intro value hmem
      obtain ⟨text, htext, hword⟩ := exists_of_forall₂_mem (mapM_eq_ok_iff.mp hwords₂) hmem
      exact hback text htext value hword
    rw [readWords_append hread₁, readWords, set_flag]
    change ((readWords (i₁.ask o (settingOf line)) words₂)).map _ = _
    rw [readWords_ask hothers, hread₂]
    rfl

end CommandLine.Invocation

/-! ## From the request to the configuration -/

theorem argumentsOf_join (args default : List String) :
    argumentsOf (.value (Shell.join args)) default = .ok args := by
  rw [argumentsOf, Shell.split_join]
  rfl

/-- What is loaded with quoted arguments is what is loaded without the option, with the arguments in
their place. -/
theorem load_ask (v : View) (e : Environment) (vars : Variables) (o : ArgumentOption) (r : Request)
    (args : List String) :
    Config.load v e vars (o.ask (.value (Shell.join args)) r) =
      (Config.load v e vars (o.ask .missing r)).map (o.give args) := by
  have hpure (c : Config) :
      (pure c : Except LoadError Config).map (o.give args) = pure (o.give args c) := rfl
  have hok {α β : Type} (a : α) (f : α → Except LoadError β) : (Except.ok a >>= f) = f a := rfl
  have hmissing (default : List String) : argumentsOf .missing default = .ok default := rfl
  unfold Config.load
  rw [apply_ite (Except.map (o.give args))]
  simp only [map_bind_eq, hpure]
  cases o with
  | sampling | instrumentation | renderer | annotate =>
    simp only [ArgumentOption.ask, ArgumentOption.give, argumentsOf_join, hmissing, hok]

/-- An option without a line of arguments leaves nothing to load. -/
theorem load_ask_empty {v : View} {e : Environment} {vars : Variables} {o : ArgumentOption}
    {r : Request} {c : Config} : Config.load v e vars (o.ask .empty r) ≠ .ok c := by
  intro hload
  have hanswers := answersTo_of_load hload
  cases o with
  | sampling => cases hanswers.samplingArgs
  | instrumentation => cases hanswers.instrumentationArgs
  | renderer => cases hanswers.rendererArgs
  | annotate => cases hanswers.annotateArgs

/-- Only the line of the single word `--` is taken for no line at all. -/
theorem settingOf_join (args : List String) :
    Invocation.settingOf (Shell.join args) =
      if args = [endOfFlags] then .empty else .value (Shell.join args) := by
  have hend : Shell.join [endOfFlags] = endOfFlags := by decide +kernel
  unfold Invocation.settingOf
  by_cases hargs : args = [endOfFlags]
  · rw [if_pos hargs, hargs, if_pos hend]
  · rw [if_neg hargs, if_neg]
    intro hjoin
    exact hargs (Shell.join_injective (hjoin.trans hend.symm))

/-! ## From the configuration to the calls -/

/-- The annotation, which alone needs outputs, comes last. -/
theorem le_of_stages_annotate {cmd : Command} {j k : Nat} (hj : cmd.stages[j]? = some .annotate)
    (hk : k < cmd.stages.length) : k ≤ j := by
  have hmem := List.mem_of_getElem? hj
  cases cmd with
  | profileSampling => exact absurd hmem (by decide)
  | profileInstrumentation =>
    rcases j with _ | _ | j
    · cases hj
    · cases hj
    · have hthree : k < 3 := hk
      omega
  | annotate =>
    have hone : k < 1 := hk
    omega
  | clean | check => exact absurd hk (Nat.not_lt_zero k)

/-- Of the calls that a command makes on a machine, the call `k` hands the arguments on to the tool
that they are for. -/
structure HandsOn (o : ArgumentOption) (cmd : Command) (args : List String) (c : Config)
    (m : Machine) (calls : List Call) (k : Nat) : Prop where
  stage : cmd.stages[k]? = some o.stage
  /-- The call is made if the command comes to it: all tools before it have passed, and the
  annotator has an output to read. -/
  made_iff : k < calls.length ↔ ComesToStages cmd c m ∧
    (∀ j < k, ((firstWorld cmd c m).outcomeAt j).Passes) ∧
    ∃ files, StartsOn c o.stage ((firstWorld cmd c m).after k).view files
  /-- The arguments stand in their place as they are, with nothing but outputs behind them. -/
  verbatim : ∀ call, calls[k]? = some call → ∃ files,
    StartsOn c o.stage ((firstWorld cmd c m).after k).view files ∧
      call.command = o.front c ++ args ++ files.map (·.text)

theorem startsOn_upTo_iff {o : ArgumentOption} {cmd : Command} {c : Config} {w : World} {k : Nat}
    (hk : cmd.stages[k]? = some o.stage) :
    (∀ j ≤ k, ∀ s, cmd.stages[j]? = some s → ∃ files, StartsOn c s (w.after j).view files) ↔
      ∃ files, StartsOn c o.stage (w.after k).view files := by
  refine ⟨fun h => h k le_rfl _ hk, fun h j hj s hs => ?_⟩
  by_cases hannotate : s = .annotate
  · rw [hannotate] at hs
    have hlast := le_of_stages_annotate hs (List.getElem?_eq_some_iff.mp hk).1
    obtain rfl : j = k := Nat.le_antisymm hj hlast
    rw [hk] at hs
    obtain rfl : s = o.stage := hannotate.trans (Option.some.inj hs).symm
    exact h
  · refine ⟨[], ?_⟩
    rw [StartsOn, if_neg hannotate]

theorem handsOn_pipeline {o : ArgumentOption} {i : Invocation} (c : Config) (m : Machine) {k : Nat}
    (hk : i.command.stages[k]? = some o.stage) :
    ∃ calls, ((i.pipeline c).exec m).2.calls = m.calls ++ calls ∧
      HandsOn o i.command (o.held c) c m calls k := by
  obtain ⟨calls, hcalls, hschedule, hstays⟩ := exists_schedule i c m
  refine ⟨calls, hcalls, ?_⟩
  by_cases hcomes : ComesToStages i.command c m
  · have hschedule := hschedule hcomes
    refine ⟨hk, ?_, fun call hcall => ?_⟩
    · rw [hschedule.lt_length_iff (List.getElem?_eq_some_iff.mp hk).1, Schedule.Reaches,
        startsOn_upTo_iff hk]
      exact ⟨fun h => ⟨hcomes, h⟩, fun h => h.2⟩
    · obtain ⟨s, files, input, hs, hstart, rfl⟩ := hschedule.exists_of_call hcall
      obtain rfl : o.stage = s := Option.some.inj (hk.symm.trans hs)
      exact ⟨files, hstart, ArgumentOption.command_stage hstart⟩
  · rw [hstays hcomes]
    refine ⟨hk, ⟨fun h => absurd h (Nat.not_lt_zero k), fun h => absurd h.1 hcomes⟩, ?_⟩
    intro call hcall
    cases hcall

/-! ## The whole way -/

/-- The line of a command with the option among other words: in one word with its arguments, which
are quoted. -/
def ArgumentOption.line (o : ArgumentOption) (cmd : Command) (front : List String)
    (args : List String) (back : List String) : List String :=
  cmd.name :: (front ++ spelled o.flag (Shell.join args) :: back)

/-- **Arguments for tools.** If the other words of a line make a configuration, the line makes the
same with the arguments in it, and the tool that they are for is called with them as they are,
whatever they are, but for the single argument `--`. -/
theorem arguments_iff {o : ArgumentOption} {cmd : Command} (hflag : o.flag ∈ cmd.flags)
    (args : List String) {front back : List String} {i₁ i : Invocation}
    (hfront : Invocation.parse (cmd.name :: front) = .ok i₁)
    (hothers : Invocation.parse (cmd.name :: (front ++ back)) = .ok i)
    (hback : ∀ text ∈ back, ∀ value, Word.read cmd.flags text ≠ .ok (.flag o.flag value))
    {m : Machine} {c : Config} (hload : (i.ask o .missing).config m = .ok c) :
    (∃ i' calls k,
      Invocation.parse (o.line cmd front args back) = .ok i' ∧
      i'.config m = .ok (o.give args c) ∧
      ((Run.program (o.line cmd front args back)).exec m).2.calls = m.calls ++ calls ∧
      HandsOn o cmd args (o.give args c) m calls k) ↔ args ≠ [endOfFlags] := by
  have hparse := Invocation.parse_insert hflag hfront hothers hback (Shell.join args)
  rw [settingOf_join] at hparse
  change Invocation.parse (o.line cmd front args back) = _ at hparse
  constructor
  · rintro ⟨i', -, -, hparse', hconfig, -⟩ rfl
    rw [if_pos rfl] at hparse
    obtain rfl := Except.ok.inj (hparse.symm.trans hparse')
    exact load_ask_empty hconfig
  · intro hargs
    rw [if_neg hargs] at hparse
    have hconfig : (i.ask o (.value (Shell.join args))).config m = .ok (o.give args c) := by
      rw [Invocation.config, Invocation.ask, load_ask]
      exact congrArg _ hload
    have hcommand := Invocation.command_of_parse hparse
    obtain ⟨k, hk⟩ := ArgumentOption.exists_stage hflag
    rw [← hcommand] at hk
    obtain ⟨calls, hcalls, hhands⟩ := handsOn_pipeline (o.give args c) m hk
    rw [hcommand, ArgumentOption.held_give] at hhands
    refine ⟨_, calls, k, hparse, hconfig, ?_, hhands⟩
    rw [exec_program_of_config hparse hconfig]
    exact hcalls

/-- A machine without files, on which every tool passes. -/
def bareMachine : Machine := .bare .empty

/-- The configuration for the program `p` there. -/
def bareConfig : Config where
  workDir := ⟨.slash, []⟩
  binary := "p"

theorem parse_bare :
    Invocation.parse (Command.profileSampling.name :: [spelled .binary "p"]) =
      .ok { command := .profileSampling, request := { binary := .value "p" } } := by
  refine Invocation.parse_eq_ok_iff.mpr ⟨?_, [.flag .binary (some "p")], ?_, rfl⟩
  · simpa using (spelled_ne_endOfFlags .binary "p").symm
  · rw [List.mapM_cons, read_spelled (by decide)]
    rfl

/-- On the bare machine a request fails only for its source directory. -/
theorem load_bareMachine (sourceDir : Setting String) :
    Config.load bareMachine.view bareMachine.environment bareMachine.environment.bindings
        { binary := .value "p", sourceDir }
      = (chooseSourceDir sourceDir "src").map fun sourceDir => { bareConfig with sourceDir } := by
  have hdir : findWorkDir bareMachine.view bareMachine.environment none = .ok ⟨.slash, []⟩ := by cbv
  unfold Config.load
  rw [if_neg (by simp)]
  change ((findWorkDir bareMachine.view bareMachine.environment none).mapError LoadError.workDir >>=
    _) = _
  rw [hdir]
  rfl

theorem load_bare :
    Config.load bareMachine.view bareMachine.environment bareMachine.environment.bindings
      { binary := .value "p" } = .ok bareConfig :=
  load_bareMachine .missing

theorem arguments_bare :
    Flag.samplingArgs ∈ Command.profileSampling.flags ∧ ["a b", endOfFlags, ""] ≠ [endOfFlags] ∧
      ∃ calls, ((Run.program [Command.profileSampling.name, spelled .binary "p",
          spelled .samplingArgs "'a b' -- ''"]).exec bareMachine).2.calls = calls ∧
        ∃ call ∈ calls, call.command = ["perf", "record", "-g", "-o", "/perf.data", "--",
          "/target/release/p", "a b", endOfFlags, ""] := by
  have hflag : Flag.samplingArgs ∈ Command.profileSampling.flags := by decide
  have hargs : ["a b", endOfFlags, ""] ≠ [endOfFlags] := by decide
  have hline : Shell.join ["a b", endOfFlags, ""] = "'a b' -- ''" := by decide +kernel
  obtain ⟨i, calls, k, -, -, hcalls, hhands⟩ :=
    (arguments_iff (o := .sampling) hflag _ parse_bare parse_bare nofun load_bare).mpr hargs
  rw [ArgumentOption.line, hline] at hcalls
  refine ⟨hflag, hargs, calls, hcalls, ?_⟩
  have hk : Command.profileSampling.stages[k]? = some .sample := hhands.stage
  obtain rfl : k = 1 := by
    rcases k with _ | _ | _ | _ | _ | k
    case succ.zero => rfl
    all_goals cases hk
  have hmade : 1 < calls.length := by
    rw [hhands.made_iff]
    refine ⟨nofun, fun j hj => ?_, [], rfl⟩
    obtain rfl := Nat.lt_one_iff.mp hj
    exact ⟨[], by cbv⟩
  obtain ⟨files, hstart, hcommand⟩ := hhands.verbatim calls[1] (List.getElem?_eq_getElem hmade)
  obtain rfl : files = [] := hstart
  refine ⟨calls[1], List.getElem_mem hmade, hcommand.trans ?_⟩
  decide +kernel

/-- The single argument `--` leaves the option without a value. -/
theorem not_forall_arguments :
    ¬ ∀ (o : ArgumentOption) (cmd : Command) (args front back : List String) (i₁ i : Invocation)
      (m : Machine) (c : Config), o.flag ∈ cmd.flags →
      Invocation.parse (cmd.name :: front) = .ok i₁ →
      Invocation.parse (cmd.name :: (front ++ back)) = .ok i →
      (∀ text ∈ back, ∀ value, Word.read cmd.flags text ≠ .ok (.flag o.flag value)) →
      (i.ask o .missing).config m = .ok c →
        ∃ i' c', Invocation.parse (o.line cmd front args back) = .ok i' ∧
          i'.config m = .ok c' ∧ o.held c' = args := by
  intro h
  obtain ⟨i', c', hparse, hconfig, -⟩ := h .sampling .profileSampling [endOfFlags] _ [] _ _ _ _
    (by decide) parse_bare parse_bare nofun load_bare
  have hempty := Invocation.parse_insert (o := .sampling) (by decide) parse_bare parse_bare nofun
    (Shell.join [endOfFlags])
  rw [settingOf_join, if_pos rfl] at hempty
  obtain rfl := Except.ok.inj (hempty.symm.trans hparse)
  exact load_ask_empty hconfig

end HotPath
