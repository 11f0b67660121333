import HotPath.Proofs.Cleaning
import HotPath.Proofs.Machine.Frames
import HotPath.Proofs.Pipeline.Instrumentation

/-!
# Where outputs come from

An instrumented run deletes stale outputs first, and builds only then. So there is no output when
the cleaning has come to its end, but there may be one when the instrumenter is started: the build
tool may have made it (`not_forall_unproduced`). What is an output at that time, and what the
annotator is given, is an output only by entries that the tools of this run have made
(`produced_before_instrumenter`, `produced_before_annotator`).

That is not to say that the entry itself is new. A link that leads nowhere is no output and stays,
and the program that is run may make the file that it leads to (`not_forall_annotated_new`).
-/

namespace HotPath

open FileSystem Glob Run

/-! ## The parts of a run -/

namespace Run

variable {α : Type} {c : Config} {m m' : Machine}

theorem exec_reportingFailure_bind {action : Run α} {next : α → Run Int} {a : α}
    (h : action.exec m = (.ok a, m')) :
    (reportingFailure (action >>= next)).exec m = (reportingFailure (next a)).exec m' := by
  rw [reportingFailure, reportingFailure, exec_tryCatch, exec_tryCatch, exec_bind_ok h]

theorem calls_reportingFailure (action : Run Int) (m : Machine) :
    ((reportingFailure action).exec m).2.calls = (action.exec m).2.calls := by
  cases hexec : action.exec m with
  | mk result after =>
    cases result with
    | ok status => rw [exec_reportingFailure_ok hexec]
    | error fault =>
      obtain ⟨err, hreport⟩ := exec_reportingFailure_error hexec
      rw [hreport]

/-- No tool is started behind a stage that fails. -/
theorem calls_stage_of_fails (c : Config) (s : Stage) (outputs : List Path)
    (next : Bytes → Run Int) (h : ¬ m.world.outcome.Passes) :
    ((reportingFailure (perform c s outputs none >>= next)).exec m).2.calls =
      m.calls ++ [callOf c s outputs none] := by
  obtain ⟨fault, hexec, -⟩ := exec_perform_of_fails c s outputs none h
  rw [calls_reportingFailure, exec_bind_error hexec]
  rfl

/-- A stage starts its tool, however the tool ends. -/
theorem exists_calls_stage (c : Config) (s : Stage) (outputs : List Path)
    {next : Bytes → Run Int} (hnext : ∀ output, Leads ByTools (next output)) (m : Machine) :
    ∃ calls, ((reportingFailure (perform c s outputs none >>= next)).exec m).2.calls =
      m.calls ++ callOf c s outputs none :: calls := by
  obtain ⟨result, hexec⟩ := exec_perform c s outputs none m
  rw [calls_reportingFailure]
  cases result with
  | error fault =>
    rw [exec_bind_error hexec]
    exact ⟨[], rfl⟩
  | ok output =>
    rw [exec_bind_ok hexec]
    obtain ⟨calls, hcalls, -⟩ := hnext output (m.afterCall (callOf c s outputs none))
    rw [hcalls]
    exact ⟨calls, List.append_assoc m.calls [_] calls⟩

section Report

variable {pattern : PathPattern} {files : List Path}
  (hpattern : PathPattern.parse c.outputPattern = .ok pattern)

include hpattern

/-- The report starts the annotator on all outputs that are there. -/
theorem calls_reportFound_of_found (format : String)
    (hfound : filesFound m.view c.workDir pattern = .ok files) (hne : files ≠ []) :
    ((reportFound c format).exec m).2.calls = m.calls ++ [callOf c .annotate files none] := by
  have hfind := exec_findOutputs hpattern m
  rw [hfound] at hfind
  rw [reportFound_eq_bind, exec_bind_ok hfind, if_neg hne]
  obtain ⟨result, hperform⟩ := exec_perform c .annotate files none m
  cases result with
  | error fault =>
    rw [exec_bind_error hperform]
    rfl
  | ok annotated =>
    rw [exec_bind_ok hperform, (quiet_reportAnnotated c format annotated _).calls]
    rfl

theorem calls_reportFound_of_none (format : String)
    (hnone : ∀ files, filesFound m.view c.workDir pattern = .ok files → files = []) :
    ((reportFound c format).exec m).2.calls = m.calls := by
  have hfind := exec_findOutputs hpattern m
  rw [reportFound_eq_bind]
  cases hfound : filesFound m.view c.workDir pattern with
  | error e =>
    rw [hfound] at hfind
    rw [exec_bind_error hfind]
  | ok files =>
    rw [hfound] at hfind
    rw [exec_bind_ok hfind, if_pos (hnone files hfound)]
    have hquiet := (quiet_showReport format []).bind fun _ => handling_leads.pure (0 : Int)
    exact (hquiet m).calls

end Report

theorem exec_tidy_of_parse_error {e : PatternError}
    (h : PathPattern.parse c.outputPattern = .error e) (m : Machine) :
    (tidy c).exec m = (.error (.pattern e), m) := by
  have hfind : (findOutputs c.workDir c.outputPattern).exec m = (.error (.pattern e), m) := by
    rw [findOutputs, exec_bind_ok (exec_get m), exec_lift, outputs, h]
    rfl
  have hdiscard : (discardOutputs c.workDir c.outputPattern).exec m = (.error (.pattern e), m) := by
    rw [discardOutputs, exec_bind_error hfind]
  rw [tidy, exec_tryCatch, exec_bind_error hdiscard]
  rfl

end Run

section Freshness

variable {c : Config} {format : String} {m cleaned before : Machine} {pattern : PathPattern}
  {files : List Path}

/-- The cleaning on the machine `m` comes to its end and leaves the machine `cleaned` behind. -/
structure Cleans (c : Config) (m : Machine) (pattern : PathPattern) (cleaned : Machine) : Prop where
  parse : PathPattern.parse c.outputPattern = .ok pattern
  exec : (tidy c).exec m = (.ok 0, cleaned)

theorem Cleans.exists_eq (h : Cleans c m pattern cleaned) :
    m.view.afterCleaning m.refused c.workDir pattern = (.ok (), cleaned.view) ∧
      ∃ err, cleaned = { m with view := cleaned.view, err } := by
  cases hclean : (m.view.afterCleaning m.refused c.workDir pattern).1 with
  | ok =>
    obtain ⟨err, hexec⟩ := exec_tidy_ok h.parse hclean
    rw [h.exec] at hexec
    obtain rfl := (Prod.mk.inj hexec).2
    exact ⟨Prod.ext hclean rfl, err, rfl⟩
  | error e =>
    obtain ⟨err, hexec⟩ := exec_tidy_error h.parse hclean
    rw [h.exec] at hexec
    cases hexec

theorem Cleans.world (h : Cleans c m pattern cleaned) :
    cleaned.world = ⟨(m.view.afterCleaning m.refused c.workDir pattern).2, m.replies⟩ := by
  obtain ⟨hclean, err, hcleaned⟩ := h.exists_eq
  rw [hclean, hcleaned]
  rfl

theorem Cleans.calls (h : Cleans c m pattern cleaned) : cleaned.calls = m.calls := by
  obtain ⟨-, err, hcleaned⟩ := h.exists_eq
  rw [hcleaned]

theorem exists_cleans_of_afterCleaning {v : View}
    (hpattern : PathPattern.parse c.outputPattern = .ok pattern)
    (h : m.view.afterCleaning m.refused c.workDir pattern = (.ok (), v)) :
    ∃ cleaned, Cleans c m pattern cleaned ∧ cleaned.world = ⟨v, m.replies⟩ := by
  obtain ⟨err, hexec⟩ := exec_tidy_ok hpattern (congrArg Prod.fst h)
  have hcleans : Cleans c m pattern _ := ⟨hpattern, hexec⟩
  refine ⟨_, hcleans, ?_⟩
  rw [hcleans.world, h]

theorem exec_reportHotLines_of_tidy (h : (tidy c).exec m = (.ok 0, cleaned)) (format : String) :
    (reportHotLines c format).exec m =
      (reportingFailure (buildAndReport c format)).exec cleaned := by
  rw [reportHotLines_eq_bind, exec_bind_ok h]
  rfl

theorem Cleans.exec_reportHotLines (h : Cleans c m pattern cleaned) (format : String) :
    (reportHotLines c format).exec m = (reportingFailure (buildAndReport c format)).exec cleaned :=
  exec_reportHotLines_of_tidy h.exec format

/-- A run that starts a tool has cleaned. -/
theorem exists_cleans (h : m.calls.length < ((reportHotLines c format).exec m).2.calls.length) :
    ∃ pattern cleaned, Cleans c m pattern cleaned := by
  rw [reportHotLines_eq_bind] at h
  cases hpattern : PathPattern.parse c.outputPattern with
  | error e =>
    rw [exec_bind_error (exec_tidy_of_parse_error hpattern m)] at h
    exact absurd h (Nat.lt_irrefl _)
  | ok pattern =>
    cases hclean : (m.view.afterCleaning m.refused c.workDir pattern).1 with
    | error e =>
      obtain ⟨err, hexec⟩ := exec_tidy_error hpattern hclean
      rw [exec_bind_ok hexec] at h
      exact absurd h (Nat.lt_irrefl _)
    | ok =>
      obtain ⟨err, hexec⟩ := exec_tidy_ok hpattern hclean
      exact ⟨pattern, _, hpattern, hexec⟩

/-! ## Before the instrumenter -/

/-- The run on the machine `m` comes to the start of the instrumenter: the machine is `cleaned` when
the stale outputs have been deleted, and `before` when the instrumenter is started. -/
structure ComesToInstrumenter (c : Config) (format : String) (m : Machine) (pattern : PathPattern)
    (cleaned before : Machine) : Prop extends Cleans c m pattern cleaned where
  calls_eq : before.calls = m.calls ++ [callOf c .build [] none]
  /-- Only the build tool has changed files since the cleaning. -/
  world_eq : before.world = cleaned.world.after 1
  goesOn : (reportHotLines c format).exec m =
    (reportingFailure (instrumentAndReport c format)).exec before

theorem Cleans.comesToInstrumenter (h : Cleans c m pattern cleaned) (format : String)
    (hpass : cleaned.world.outcome.Passes) :
    ComesToInstrumenter c format m pattern cleaned
      (cleaned.afterCall (callOf c .build [] none)) := by
  have hbuild := exec_perform_of_passes c .build [] none hpass
  refine ⟨h, ?_, rfl, (h.exec_reportHotLines format).trans (exec_reportingFailure_bind hbuild)⟩
  show cleaned.calls ++ [_] = _
  rw [h.calls]

theorem exists_comesToInstrumenter
    (h : m.calls.length + 1 < ((reportHotLines c format).exec m).2.calls.length) :
    ∃ pattern cleaned before, ComesToInstrumenter c format m pattern cleaned before := by
  obtain ⟨pattern, cleaned, hcleans⟩ := exists_cleans (Nat.lt_of_succ_lt h)
  by_cases hpass : cleaned.world.outcome.Passes
  · exact ⟨pattern, cleaned, _, hcleans.comesToInstrumenter format hpass⟩
  · rw [hcleans.exec_reportHotLines, buildAndReport, calls_stage_of_fails c .build [] _ hpass,
      hcleans.calls, List.length_append] at h
    exact absurd h (Nat.lt_irrefl _)

theorem ComesToInstrumenter.length_calls (h : ComesToInstrumenter c format m pattern cleaned before) :
    before.calls.length = m.calls.length + 1 := by
  rw [h.calls_eq, List.length_append]
  rfl

/-- The instrumenter is started. -/
theorem ComesToInstrumenter.started (h : ComesToInstrumenter c format m pattern cleaned before) :
    m.calls.length + 1 < ((reportHotLines c format).exec m).2.calls.length := by
  obtain ⟨calls, hcalls⟩ := exists_calls_stage c .instrument []
    (fun _ => byTools_reportFound c format) before
  rw [h.goesOn, instrumentAndReport, hcalls, List.length_append, h.length_calls, List.length_cons]
  omega

/-- **Outputs at the start of the instrumenter.** When the cleaning has come to its end there is no
output. What is an output when the instrumenter is started is one by the entries that the build tool
has made since: without them, and so if it has made none, there is no output. -/
theorem produced_before_instrumenter (c : Config) (format : String) (m : Machine)
    (hstarted : m.calls.length + 1 < ((reportHotLines c format).exec m).2.calls.length) :
    ∃ pattern cleaned before, ComesToInstrumenter c format m pattern cleaned before ∧
      (∀ p, ¬ IsOutput cleaned.view c.workDir pattern p) ∧
      (∀ p, ¬ IsOutput (cleaned.view.remains before.view) c.workDir pattern p) ∧
      (before.view.Within cleaned.view → ∀ p, ¬ IsOutput before.view c.workDir pattern p) := by
  obtain ⟨pattern, cleaned, before, hcomes⟩ := exists_comesToInstrumenter hstarted
  have hcleaned := hcomes.exists_eq.1
  refine ⟨pattern, cleaned, before, hcomes, not_isOutput_of_cleaned hcleaned, ?_, ?_⟩
  · have hremains := View.remains_within cleaned.view before.view
    exact not_isOutput_of_within_cleaned hcleaned hremains
  · intro hwithin
    exact not_isOutput_of_within_cleaned hcleaned hwithin

/-- A machine on which the build tool leaves the file `/p/o` behind. -/
def earlyOutputMachine : Machine :=
  { loneOutputMachine [] with replies := [⟨[.put ["p", "o"] (.file [] false)], .finished 0 []⟩] }

theorem comesToInstrumenter_earlyOutput :
    ∃ cleaned before, ComesToInstrumenter loneOutputConfig "text" earlyOutputMachine
        ⟨[.exactly "o"], false⟩ cleaned before ∧
      before.view = (World.mk (loneDirectory "p") earlyOutputMachine.replies).next.view := by
  obtain ⟨cleaned, hcleans, hworld⟩ := exists_cleans_of_afterCleaning (m := earlyOutputMachine)
    parse_loneOutput (afterCleaning_loneOutput [])
  have hpass : cleaned.world.outcome.Passes := by
    rw [hworld]
    exact ⟨[], by cbv⟩
  refine ⟨cleaned, _, hcleans.comesToInstrumenter "text" hpass, ?_⟩
  show cleaned.world.next.view = _
  rw [hworld]

theorem produced_before_instrumenter_earlyOutput :
    earlyOutputMachine.calls.length + 1 <
        ((reportHotLines loneOutputConfig "text").exec earlyOutputMachine).2.calls.length ∧
      ∃ pattern cleaned before,
        ComesToInstrumenter loneOutputConfig "text" earlyOutputMachine pattern cleaned before ∧
        ∀ p, ¬ IsOutput cleaned.view loneOutputConfig.workDir pattern p := by
  obtain ⟨cleaned, before, hcomes, -⟩ := comesToInstrumenter_earlyOutput
  obtain ⟨pattern, cleaned, before, hcomes', hnone, -⟩ :=
    produced_before_instrumenter loneOutputConfig "text" earlyOutputMachine hcomes.started
  exact ⟨hcomes.started, pattern, cleaned, before, hcomes', hnone⟩

/-- An output that the build tool has made is there when the instrumenter is started. -/
theorem not_forall_unproduced :
    ¬ ∀ (c : Config) (format : String) (m : Machine) (pattern : PathPattern)
      (cleaned before : Machine), ComesToInstrumenter c format m pattern cleaned before →
        ∀ p, ¬ IsOutput before.view c.workDir pattern p := by
  intro h
  obtain ⟨cleaned, before, hcomes, hview⟩ := comesToInstrumenter_earlyOutput
  apply h _ _ _ _ _ _ hcomes ⟨.slash, ["p", "o"]⟩
  rw [hview]
  exact ⟨by cbv, .exactly (by cbv) .here, by cbv⟩

/-! ## Before the annotator -/

/-- The run on the machine `m` comes to the start of the annotator: the machine is `cleaned` when
the stale outputs have been deleted, and `before` when the outputs are looked for that the annotator
is given. -/
structure ComesToAnnotator (c : Config) (format : String) (m : Machine) (pattern : PathPattern)
    (cleaned before : Machine) (files : List Path) : Prop extends Cleans c m pattern cleaned where
  calls_eq : before.calls = m.calls ++ (instrumentationCalls c files).take 2
  /-- Only the tools have changed files since the cleaning. -/
  world_eq : before.world = cleaned.world.after 2
  goesOn : (reportHotLines c format).exec m = (reportingFailure (reportFound c format)).exec before
  found : filesFound before.view c.workDir pattern = .ok files
  /-- The annotator is given what has been found. -/
  annotates : ((reportHotLines c format).exec m).2.calls = m.calls ++ instrumentationCalls c files

/-- Behind an instrumenter that passes, the annotator is started if there are outputs. -/
theorem ComesToInstrumenter.comesToAnnotator
    (h : ComesToInstrumenter c format m pattern cleaned before)
    (hpass : before.world.outcome.Passes)
    (hfound : filesFound before.world.next.view c.workDir pattern = .ok files) (hne : files ≠ []) :
    ComesToAnnotator c format m pattern cleaned
      (before.afterCall (callOf c .instrument [] none)) files := by
  have hinstrument := exec_perform_of_passes c .instrument [] none hpass
  have hrun : (reportHotLines c format).exec m = (reportingFailure (reportFound c format)).exec
      (before.afterCall (callOf c .instrument [] none)) :=
    h.goesOn.trans (exec_reportingFailure_bind hinstrument)
  refine ⟨h.toCleans, ?_, ?_, hrun, hfound, ?_⟩
  · show before.calls ++ [_] = _
    rw [h.calls_eq, List.append_assoc]
    rfl
  · show before.world.next = _
    rw [h.world_eq, World.next_after]
  · have hcalls := calls_reportFound_of_found h.parse format
      (m := before.afterCall (callOf c .instrument [] none)) hfound hne
    rw [hrun, calls_reportingFailure, hcalls]
    show before.calls ++ [_] ++ [_] = _
    rw [h.calls_eq, List.append_assoc, List.append_assoc]
    rfl

theorem exists_comesToAnnotator
    (h : m.calls.length + 2 < ((reportHotLines c format).exec m).2.calls.length) :
    ∃ pattern cleaned before files,
      ComesToAnnotator c format m pattern cleaned before files := by
  obtain ⟨pattern, cleaned, before, hcomes⟩ := exists_comesToInstrumenter (Nat.lt_of_succ_lt h)
  have hlength := hcomes.length_calls
  rw [hcomes.goesOn, instrumentAndReport] at h
  by_cases hpass : before.world.outcome.Passes
  · by_cases hnone : ∀ files, filesFound before.world.next.view c.workDir pattern = .ok files →
        files = []
    · have hinstrument := exec_perform_of_passes c .instrument [] none hpass
      have hcalls := calls_reportFound_of_none hcomes.parse format
        (m := before.afterCall (callOf c .instrument [] none)) hnone
      rw [exec_reportingFailure_bind hinstrument, calls_reportingFailure, hcalls] at h
      change _ < (before.calls ++ [_]).length at h
      rw [List.length_append, hlength] at h
      exact absurd h (Nat.lt_irrefl _)
    · push Not at hnone
      obtain ⟨files, hfound, hne⟩ := hnone
      exact ⟨pattern, cleaned, _, files, hcomes.comesToAnnotator hpass hfound hne⟩
  · rw [calls_stage_of_fails c .instrument [] _ hpass, List.length_append, hlength] at h
    exact absurd h (Nat.lt_irrefl _)

theorem ComesToAnnotator.started
    (h : ComesToAnnotator c format m pattern cleaned before files) :
    m.calls.length + 2 < ((reportHotLines c format).exec m).2.calls.length := by
  rw [h.annotates, List.length_append]
  exact Nat.lt_succ_self _

/-- **What the annotator is given.** Each file that the annotator is given is an output at that
time, and was none when the stale outputs had been deleted. Without the entries that the tools of
this run have made since, it would be no output. -/
theorem produced_before_annotator (c : Config) (format : String) (m : Machine)
    (hstarted : m.calls.length + 2 < ((reportHotLines c format).exec m).2.calls.length) :
    ∃ pattern cleaned before files, ComesToAnnotator c format m pattern cleaned before files ∧
      ∀ p ∈ files, IsOutput before.view c.workDir pattern p ∧
        ¬ IsOutput cleaned.view c.workDir pattern p ∧
        ¬ IsOutput (cleaned.view.remains before.view) c.workDir pattern p := by
  obtain ⟨pattern, cleaned, before, files, hcomes⟩ := exists_comesToAnnotator hstarted
  have hcleaned := hcomes.exists_eq.1
  refine ⟨pattern, cleaned, before, files, hcomes, fun p hp => ⟨?_, ?_, ?_⟩⟩
  · exact (mem_filesFound_iff hcomes.found).mp hp
  · exact not_isOutput_of_cleaned hcleaned p
  · have hremains := View.remains_within cleaned.view before.view
    exact not_isOutput_of_within_cleaned hcleaned hremains p

/-- A machine with a link at `/p/o` that leads nowhere until the instrumented program makes the file
`/p/d`. -/
def linkMachine : Machine :=
  { loneOutputMachine [] with
    view := (loneDirectory "p").insert ["p", "o"] (.link "d") (by decide +kernel)
    replies := [.silent, ⟨[.put ["p", "d"] (.file [] false)], .finished 0 []⟩] }

theorem afterCleaning_link :
    linkMachine.view.afterCleaning linkMachine.refused loneOutputConfig.workDir
      ⟨[.exactly "o"], false⟩ = (.ok (), linkMachine.view) := by
  cbv

theorem comesToAnnotator_link :
    ∃ cleaned before, cleaned.view = linkMachine.view ∧
      before.view = (linkMachine.world.after 2).view ∧
      ComesToAnnotator loneOutputConfig "text" linkMachine ⟨[.exactly "o"], false⟩ cleaned before
        [⟨.slash, ["p", "o"]⟩] := by
  obtain ⟨cleaned, hcleans, hworld⟩ :=
    exists_cleans_of_afterCleaning parse_loneOutput afterCleaning_link
  have hbuild : cleaned.world.outcome.Passes := by
    rw [hworld]
    exact ⟨[], by cbv⟩
  have hbuilt := hcleans.comesToInstrumenter "text" hbuild
  have hnext := hbuilt.world_eq
  rw [hworld] at hnext
  generalize cleaned.afterCall _ = built at hbuilt hnext
  have hinstrument : built.world.outcome.Passes := by
    rw [hnext]
    exact ⟨[], by cbv⟩
  have hfound : filesFound built.world.next.view loneOutputConfig.workDir ⟨[.exactly "o"], false⟩ =
      .ok [⟨.slash, ["p", "o"]⟩] := by
    rw [hnext]
    cbv
  refine ⟨cleaned, _, congrArg World.view hworld, ?_,
    hbuilt.comesToAnnotator hinstrument hfound (by simp)⟩
  show built.world.next.view = _
  rw [hnext]
  rfl

theorem produced_before_annotator_link :
    linkMachine.calls.length + 2 <
        ((reportHotLines loneOutputConfig "text").exec linkMachine).2.calls.length ∧
      ∃ pattern cleaned before files,
        ComesToAnnotator loneOutputConfig "text" linkMachine pattern cleaned before files ∧
        ∀ p ∈ files, ¬ IsOutput cleaned.view loneOutputConfig.workDir pattern p := by
  obtain ⟨cleaned, before, -, -, hcomes⟩ := comesToAnnotator_link
  obtain ⟨pattern, cleaned, before, files, hcomes', hfiles⟩ :=
    produced_before_annotator loneOutputConfig "text" linkMachine hcomes.started
  exact ⟨hcomes.started, pattern, cleaned, before, files, hcomes',
    fun p hp => (hfiles p hp).2.1⟩

/-- The annotator is given a link that was there when the stale outputs had been deleted. -/
theorem not_forall_annotated_new :
    ¬ ∀ (c : Config) (format : String) (m : Machine) (pattern : PathPattern)
      (cleaned before : Machine) (files : List Path),
      ComesToAnnotator c format m pattern cleaned before files →
        ∀ p ∈ files, ∀ spot, before.view.locate .findLink p = .ok spot →
          cleaned.view.tree.at? spot = none := by
  intro h
  obtain ⟨cleaned, before, hcleaned, hbefore, hcomes⟩ := comesToAnnotator_link
  have hlocate : before.view.locate .findLink ⟨.slash, ["p", "o"]⟩ = .ok ⟨["p", "o"], 0⟩ := by
    rw [hbefore]
    cbv
  have hnone := h _ _ _ _ _ _ _ hcomes _ (List.mem_singleton_self _) _ hlocate
  have hlink : linkMachine.view.tree.at? ⟨["p", "o"], 0⟩ = some (.link "d") := by cbv
  rw [hcleaned, hlink] at hnone
  cases hnone

end Freshness

end HotPath
