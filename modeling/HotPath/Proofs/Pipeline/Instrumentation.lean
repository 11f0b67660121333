import HotPath.Proofs.Machine.Calls
import HotPath.Proofs.Outputs
import HotPath.Proofs.Report.WrittenCosts
import HotPath.Proofs.Text.Utf8

/-!
# Reporting hot lines

An instrumented run starts with the deletion of stale outputs. What follows is a relay of two stages
and, if the tools have left outputs behind, a third call that reads them. Which calls are made, what
comes out and what is printed is fixed by how the tools end and by the files they leave
(`reportHotLines_reports`).
-/

namespace HotPath

open FileSystem Glob Report Run

/-- The calls of an instrumented run that leaves `files` behind. -/
def instrumentationCalls (c : Config) (files : List Path) : List Call :=
  [⟨Stage.build.command c [], c.workDir, none, false⟩,
    ⟨Stage.instrument.command c [], c.workDir, none, false⟩,
    ⟨c.tools .annotator :: (c.annotateArgs ++ files.map (·.text)), c.workDir, none, true⟩]

/-- The files that a search has found; a search that has failed has found none. -/
def filesOf : Except FileError (List Path) → List Path
  | .ok files => files
  | .error _ => []

/-- The cost lines that the annotator has written about the files. -/
def linesRead (prefixes : List String) (files : List Path) (output : Bytes) :
    Except CostError (List CostLine) :=
  if files = [] then .ok []
  else CostLine.ofText prefixes (.ofList (Text.Utf8.decodeLenient output))

/-- What is printed about cost lines: the report on the hottest of them, as a line. -/
def printed (f : Format) (count : Int) (lines : List CostLine) : Except FormatError String :=
  (report f ((ranking lines).take count.toNat)).map fun text =>
    if text = "" then "" else text ++ "\n"

/-- What reporting makes of a machine with `n` calls, where the tools start from the world `w`: the
call `k` ends as `w.outcomeAt k` says. -/
structure Reports (c : Config) (f : Format) (pattern : PathPattern) (prefixes : List String)
    (m : Machine) (w : World) (n : Nat) (result : Except Fault Int) (m' : Machine) : Prop where
  pos : 0 < n
  le_three : n ≤ 3
  instrument_iff : 1 < n ↔ (w.outcomeAt 0).Passes
  /-- The annotator is started exactly if the search for outputs finds a regular file. -/
  annotate_iff : 2 < n ↔ (w.outcomeAt 0).Passes ∧ (w.outcomeAt 1).Passes ∧
    ∃ files, filesFound (w.after 2).view c.workDir pattern = .ok files ∧
      ∃ p, IsOutput (w.after 2).view c.workDir pattern p
  /-- It is started with every output once, in order. -/
  files : ∀ files, filesFound (w.after 2).view c.workDir pattern = .ok files →
    (∀ p, p ∈ files ↔ IsOutput (w.after 2).view c.workDir pattern p) ∧ files.Nodup ∧
      files.Pairwise fun p q => p.le q = true
  calls : m'.calls = m.calls ++ (instrumentationCalls c
    (filesOf (filesFound (w.after 2).view c.workDir pattern))).take n
  fails : ∀ k < n, ¬ (w.outcomeAt k).Passes → ∃ call,
    (instrumentationCalls c (filesOf (filesFound (w.after 2).view c.workDir pattern)))[k]? =
      some call ∧ result = (w.outcomeAt k).exit call.command
  succeeds_iff : result = .ok 0 ↔ (∀ k < n, (w.outcomeAt k).Passes) ∧
    ∃ files lines, filesFound (w.after 2).view c.workDir pattern = .ok files ∧
      linesRead prefixes files (w.outcomeAt 2).output = .ok lines
  /-- If all tools have passed, it is a search or a cost that stands in the way. -/
  escapes : (∀ k < n, (w.outcomeAt k).Passes) → result ≠ .ok 0 → ∃ fault, result = .error fault
  prints : result = .ok 0 → ∃ files lines shown,
    filesFound (w.after 2).view c.workDir pattern = .ok files ∧
    linesRead prefixes files (w.outcomeAt 2).output = .ok lines ∧
    printed f c.topCount lines = .ok shown ∧ m'.out = m.out ++ shown
  silent : result ≠ .ok 0 → m'.out = m.out
  /-- After the cleaning only the tools have changed files. -/
  view : m'.view = (w.after n).view

namespace Run

variable {c : Config} {m : Machine} {pattern : PathPattern} {prefixes : List String}

theorem exec_showReport {f : Format} {lines : List CostLine} {text : String}
    (h : report f lines = .ok text) (m : Machine) :
    (showReport f.name lines).exec m =
      (.ok (), { m with out := m.out ++ if text = "" then "" else text ++ "\n" }) := by
  have hrender : render f.name lines = .ok text := by
    rw [← h]
    cases f <;> rfl
  unfold showReport
  rw [hrender, exec_bind, exec_lift]
  by_cases hempty : text = ""
  · simp [Except.mapError, hempty]
  · simp only [Except.mapError, ne_eq, hempty, not_false_eq_true, if_true, if_false]
    rw [printLine, exec_modify, ← String.append_assoc]

theorem hottestLines_eq (hcount : 1 ≤ c.topCount) (text : String) :
    hottestLines prefixes c.topCount text =
      ((CostLine.ofText prefixes text).map fun lines =>
        (ranking lines).take c.topCount.toNat).mapError .cost := by
  have hhottest (lines : List CostLine) :
      hottest c.topCount lines = .ok ((ranking lines).take c.topCount.toNat) := by
    rw [hottest, if_neg (by omega)]
  unfold hottestLines
  simp only [hhottest]
  cases CostLine.ofText prefixes text with
  | ok lines => rfl
  | error e => rfl

/-- What is done behind the instrumented run. -/
def finishReport (c : Config) (f : Format) : Run Int := do
  showReport f.name (← hotLines c)
  return 0

theorem exec_finishReport_of_lines {m' : Machine} {f : Format} {lines : List CostLine}
    {shown : String} (hshown : printed f c.topCount lines = .ok shown)
    (h : (hotLines c).exec m = (.ok ((ranking lines).take c.topCount.toNat), m')) :
    (finishReport c f).exec m = (.ok 0, { m' with out := m'.out ++ shown }) := by
  obtain ⟨text, htext, rfl⟩ := map_eq_ok_iff.mp hshown
  rw [finishReport, exec_bind_ok h, exec_bind_ok (exec_showReport htext m')]
  rfl

/-- Lines that the annotator has written can be shown. -/
theorem exists_printed (f : Format) (count : Int) {files : List Path} {output : Bytes}
    {lines : List CostLine} (h : linesRead prefixes files output = .ok lines) :
    ∃ shown, printed f count lines = .ok shown := by
  have hread : ∃ text, CostLine.ofText prefixes text = .ok lines := by
    unfold linesRead at h
    split at h
    · exact ⟨"", h⟩
    · exact ⟨_, h⟩
  obtain ⟨text, hread⟩ := hread
  have hsubset : (ranking lines).take count.toNat ⊆ lines := fun _ hl =>
    mem_ranking.mp (List.mem_of_mem_take hl)
  exact exists_map_eq_ok_iff.mpr (exists_report hread hsubset f)

section Finish

variable (hpattern : PathPattern.parse c.outputPattern = .ok pattern) {files : List Path}

include hpattern

theorem exec_hotLines_of_error {e : FileError}
    (h : filesFound m.view c.workDir pattern = .error e) :
    (hotLines c).exec m = (.error (.file e), m) := by
  have hfind := exec_findOutputs hpattern m
  rw [h] at hfind
  rw [hotLines, exec_bind_error hfind]

theorem exec_hotLines_of_nil (h : filesFound m.view c.workDir pattern = .ok []) :
    (hotLines c).exec m = (.ok [], m) := by
  have hfind := exec_findOutputs hpattern m
  rw [h] at hfind
  rw [hotLines, exec_bind_ok hfind, if_pos rfl, exec_pure]

theorem exec_hotLines_of_fails (h : filesFound m.view c.workDir pattern = .ok files)
    (hne : files ≠ []) (hfails : ¬ m.world.outcome.Passes) :
    ∃ fault, (hotLines c).exec m =
        (.error fault, m.afterCall (callOf c .annotate files none)) ∧
      fault.exit = m.world.outcome.exit (callOf c .annotate files none).command := by
  have hfind := exec_findOutputs hpattern m
  rw [h] at hfind
  obtain ⟨fault, hperform, hexit⟩ := exec_perform_of_fails c .annotate files none hfails
  refine ⟨fault, ?_, hexit⟩
  rw [hotLines, exec_bind_ok hfind, if_neg hne, exec_bind_error hperform]

theorem exec_hotLines_of_passes (hprefixes : c.prefixes = .ok prefixes) (hcount : 1 ≤ c.topCount)
    (h : filesFound m.view c.workDir pattern = .ok files) (hne : files ≠ [])
    (hpasses : m.world.outcome.Passes) :
    (hotLines c).exec m =
      (((linesRead prefixes files m.world.outcome.output).map fun lines =>
          (ranking lines).take c.topCount.toNat).mapError fun e => .report (.cost e),
        m.afterCall (callOf c .annotate files none)) := by
  have hfind := exec_findOutputs hpattern m
  rw [h] at hfind
  have hperform := exec_perform_of_passes c .annotate files none hpasses
  have hkept : keptBy .annotate m.world.outcome = m.world.outcome.output := rfl
  rw [hotLines, exec_bind_ok hfind, if_neg hne, exec_bind_ok hperform, hprefixes, hkept]
  rw [exec_bind, exec_lift]
  dsimp only [Except.mapError]
  rw [exec_lift, hottestLines_eq hcount, linesRead, if_neg hne]
  cases CostLine.ofText prefixes (.ofList (Text.Utf8.decodeLenient m.world.outcome.output)) with
  | ok lines => rfl
  | error e => rfl

end Finish

/-- The stages up to the instrumented run. -/
def instrumentationLinks : List Link := [⟨.build, false⟩, ⟨.instrument, false⟩]

theorem reportHotLines_eq (c : Config) (f : Format) :
    reportHotLines c f.name = tidy c >>= fun status =>
      if status ≠ 0 then pure status
      else reportingFailure (relay c instrumentationLinks [] >>= fun _ => finishReport c f) := by
  simp only [reportHotLines, instrumentationLinks, relay, finishReport, bind_assoc, pure_bind]
  rfl

theorem callsOf_instrumentationLinks (c : Config) (w : World) (files : List Path) :
    callsOf c instrumentationLinks [] w = (instrumentationCalls c files).take 2 := rfl

end Run

section Reports

variable {c : Config} {f : Format} {pattern : PathPattern} {prefixes : List String}
  {m m' : Machine} {w : World} {result : Except Fault Int}

theorem filesFound_spec {v : View} {workDir : Path} {files : List Path}
    (h : filesFound v workDir pattern = .ok files) :
    (∀ p, p ∈ files ↔ IsOutput v workDir pattern p) ∧ files.Nodup ∧
      files.Pairwise fun p q => p.le q = true :=
  ⟨fun _ => mem_filesFound_iff h, nodup_filesFound h, pairwise_filesFound h⟩

/-- A run that ends with a tool that fails. -/
theorem reports_of_fails {k : Nat} {call : Call} (hk : k < 3)
    (hbefore : ∀ j < k, (w.outcomeAt j).Passes) (hfails : ¬ (w.outcomeAt k).Passes)
    (hannotate : k = 2 → ∃ files, filesFound (w.after 2).view c.workDir pattern = .ok files ∧
      ∃ p, IsOutput (w.after 2).view c.workDir pattern p)
    (hcall : (instrumentationCalls c
      (filesOf (filesFound (w.after 2).view c.workDir pattern)))[k]? = some call)
    (hresult : result = (w.outcomeAt k).exit call.command)
    (hcalls : m'.calls = m.calls ++ (instrumentationCalls c
      (filesOf (filesFound (w.after 2).view c.workDir pattern))).take (k + 1))
    (hout : m'.out = m.out) (hview : m'.view = (w.after (k + 1)).view) :
    Reports c f pattern prefixes m w (k + 1) result m' := by
  have hnonzero : result ≠ .ok 0 := by
    rw [hresult]
    exact Outcome.exit_ne_zero hfails call.command
  have hpass (j : Nat) : (w.outcomeAt j).Passes → k ≠ j := by
    rintro hj rfl
    exact hfails hj
  constructor
  · omega
  · omega
  · constructor
    · intro _
      exact hbefore 0 (by omega)
    · intro h
      have := hpass 0 h
      omega
  · constructor
    · intro _
      exact ⟨hbefore 0 (by omega), hbefore 1 (by omega), hannotate (by omega)⟩
    · rintro ⟨h, h', -⟩
      have := hpass 0 h
      have := hpass 1 h'
      omega
  · intro files hfiles
    exact filesFound_spec hfiles
  · exact hcalls
  · intro j hj hjfails
    obtain rfl : j = k := by
      by_contra hne
      exact hjfails (hbefore j (by omega))
    exact ⟨call, hcall, hresult⟩
  · exact ⟨fun h => absurd h hnonzero, fun h => absurd (h.1 k (by omega)) hfails⟩
  · intro hall
    exact absurd (hall k (by omega)) hfails
  · intro h
    exact absurd h hnonzero
  · intro _
    exact hout
  · exact hview

/-- A run in which all tools pass and their output is read. -/
theorem reports_of_lines {n : Nat} {files : List Path} {lines : List CostLine} {shown : String}
    (htwo : 2 ≤ n) (hthree : n ≤ 3) (hall : ∀ k < n, (w.outcomeAt k).Passes)
    (hfiles : filesFound (w.after 2).view c.workDir pattern = .ok files)
    (hannotate : 2 < n ↔ files ≠ [])
    (hlines : linesRead prefixes files (w.outcomeAt 2).output = .ok lines)
    (hcalls : m'.calls = m.calls ++ (instrumentationCalls c files).take n)
    (hshown : printed f c.topCount lines = .ok shown) (hout : m'.out = m.out ++ shown)
    (hview : m'.view = (w.after n).view) : Reports c f pattern prefixes m w n (.ok 0) m' := by
  have hspec := filesFound_spec hfiles
  constructor
  · omega
  · exact hthree
  · exact ⟨fun _ => hall 0 (by omega), fun _ => by omega⟩
  · rw [hannotate]
    constructor
    · intro hne
      obtain ⟨p, hp⟩ := List.exists_mem_of_ne_nil files hne
      exact ⟨hall 0 (by omega), hall 1 (by omega), files, hfiles, p, (hspec.1 p).mp hp⟩
    · rintro ⟨-, -, -, -, p, hp⟩
      exact List.ne_nil_of_mem ((hspec.1 p).mpr hp)
  · intro files' hfiles'
    exact filesFound_spec hfiles'
  · rw [hfiles]
    exact hcalls
  · intro k hk hfails
    exact absurd (hall k hk) hfails
  · exact ⟨fun _ => ⟨hall, files, lines, hfiles, hlines⟩, fun _ => rfl⟩
  · intro _ h
    exact absurd rfl h
  · intro _
    exact ⟨files, lines, shown, hfiles, hlines, hshown, hout⟩
  · intro h
    exact absurd rfl h
  · exact hview

/-- A run in which all tools pass, but the search for outputs fails or their output is not read. -/
theorem reports_of_fault {n : Nat} {fault : Fault} (htwo : 2 ≤ n) (hthree : n ≤ 3)
    (hall : ∀ k < n, (w.outcomeAt k).Passes)
    (hannotate : 2 < n ↔ ∃ files, filesFound (w.after 2).view c.workDir pattern = .ok files ∧
      ∃ p, IsOutput (w.after 2).view c.workDir pattern p)
    (hno : ∀ files lines, filesFound (w.after 2).view c.workDir pattern = .ok files →
      linesRead prefixes files (w.outcomeAt 2).output ≠ .ok lines)
    (hcalls : m'.calls = m.calls ++ (instrumentationCalls c
      (filesOf (filesFound (w.after 2).view c.workDir pattern))).take n)
    (hout : m'.out = m.out) (hview : m'.view = (w.after n).view) :
    Reports c f pattern prefixes m w n (.error fault) m' := by
  constructor
  · omega
  · exact hthree
  · exact ⟨fun _ => hall 0 (by omega), fun _ => by omega⟩
  · rw [hannotate]
    exact ⟨fun h => ⟨hall 0 (by omega), hall 1 (by omega), h⟩, fun h => h.2.2⟩
  · intro files hfiles
    exact filesFound_spec hfiles
  · exact hcalls
  · intro k hk hfails
    exact absurd (hall k hk) hfails
  · constructor
    · intro h
      cases h
    · rintro ⟨-, files, lines, hfiles, hlines⟩
      exact absurd hlines (hno files lines hfiles)
  · intro _ _
    exact ⟨fault, rfl⟩
  · intro h
    cases h
  · intro _
    exact hout
  · exact hview

/-- The machine `after` is left by an instrumented run that started from the machine `m`, in the
world `w`, and in which both tools have passed. -/
structure Instrumented (c : Config) (m : Machine) (w : World) (after : Machine) : Prop where
  world : after.world = w.after 2
  passes : ∀ k < 2, (w.outcomeAt k).Passes
  calls : ∀ files, after.calls = m.calls ++ (instrumentationCalls c files).take 2
  out : after.out = m.out

section Finish

variable {after start : Machine} {action : Run Int} {files : List Path}
  (hafter : Instrumented c m w after)
  (haction : action.exec start = (finishReport c f).exec after)
  (hpattern : PathPattern.parse c.outputPattern = .ok pattern)

include hafter

theorem Instrumented.view_eq : after.view = (w.after 2).view := congrArg World.view hafter.world

theorem Instrumented.outcome_eq : after.world.outcome = w.outcomeAt 2 :=
  congrArg World.outcome hafter.world

theorem Instrumented.calls_afterCall (files : List Path) :
    (after.afterCall (callOf c .annotate files none)).calls =
      m.calls ++ (instrumentationCalls c files).take 3 := by
  change after.calls ++ [_] = _
  rw [hafter.calls files, List.append_assoc]
  rfl

theorem Instrumented.view_afterCall (call : Call) :
    (after.afterCall call).view = (w.after 3).view := by
  change after.world.next.view = _
  rw [hafter.world, World.next_after]

include haction hpattern

theorem exists_reports_of_search_error {e : FileError}
    (h : filesFound (w.after 2).view c.workDir pattern = .error e) :
    ∃ n, Reports c f pattern prefixes m w n ((reportingFailure action).exec start).1
      ((reportingFailure action).exec start).2 := by
  have hlines := exec_hotLines_of_error hpattern (m := after) (e := e)
    (by rw [hafter.view_eq, h])
  obtain ⟨err, hexec⟩ := exec_reportingFailure_error (haction.trans (exec_bind_error hlines))
  rw [hexec]
  exact ⟨2, reports_of_fault le_rfl (by omega) hafter.passes (by simp [h]) (by simp [h])
    (hafter.calls _) hafter.out hafter.view_eq⟩

theorem exists_reports_of_no_output (h : filesFound (w.after 2).view c.workDir pattern = .ok []) :
    ∃ n, Reports c f pattern prefixes m w n ((reportingFailure action).exec start).1
      ((reportingFailure action).exec start).2 := by
  have hlines : (hotLines c).exec after = (.ok ((ranking []).take c.topCount.toNat), after) := by
    rw [exec_hotLines_of_nil hpattern (by rw [hafter.view_eq, h]), ranking, List.mergeSort_nil,
      List.take_nil]
  have hread : linesRead prefixes [] (w.outcomeAt 2).output = .ok [] := rfl
  obtain ⟨shown, hshown⟩ := exists_printed f c.topCount hread
  have hfinish := exec_finishReport_of_lines hshown hlines
  rw [exec_reportingFailure_ok (haction.trans hfinish)]
  exact ⟨2, reports_of_lines le_rfl (by omega) hafter.passes h (by simp) hread (hafter.calls [])
    hshown (congrArg (· ++ _) hafter.out) hafter.view_eq⟩

theorem exists_reports_of_annotator_fails
    (h : filesFound (w.after 2).view c.workDir pattern = .ok files) (hne : files ≠ [])
    (hfails : ¬ (w.outcomeAt 2).Passes) :
    ∃ n, Reports c f pattern prefixes m w n ((reportingFailure action).exec start).1
      ((reportingFailure action).exec start).2 := by
  obtain ⟨fault, hlines, hexit⟩ := exec_hotLines_of_fails hpattern (m := after)
    (by rw [hafter.view_eq, h]) hne (by rw [hafter.outcome_eq]; exact hfails)
  obtain ⟨err, hexec⟩ := exec_reportingFailure_error (haction.trans (exec_bind_error hlines))
  rw [hexec]
  rw [hafter.outcome_eq] at hexit
  obtain ⟨p, hp⟩ := List.exists_mem_of_ne_nil files hne
  refine ⟨3, reports_of_fails (k := 2) (by omega) hafter.passes hfails
    (fun _ => ⟨files, h, p, (mem_filesFound_iff h).mp hp⟩) ?_ hexit ?_ hafter.out
    (hafter.view_afterCall (callOf c .annotate files none))⟩
  · rw [h]
    rfl
  · rw [h]
    exact hafter.calls_afterCall files

theorem exists_reports_of_annotator_passes (hprefixes : c.prefixes = .ok prefixes)
    (hcount : 1 ≤ c.topCount) (h : filesFound (w.after 2).view c.workDir pattern = .ok files)
    (hne : files ≠ []) (hpass : (w.outcomeAt 2).Passes) :
    ∃ n, Reports c f pattern prefixes m w n ((reportingFailure action).exec start).1
      ((reportingFailure action).exec start).2 := by
  have hall : ∀ k < 3, (w.outcomeAt k).Passes := by
    intro k hk
    by_cases hlast : k = 2
    · rw [hlast]
      exact hpass
    · exact hafter.passes k (by omega)
  have hlines := exec_hotLines_of_passes hpattern (m := after) hprefixes hcount
    (by rw [hafter.view_eq, h]) hne (by rw [hafter.outcome_eq]; exact hpass)
  rw [hafter.outcome_eq] at hlines
  cases hread : linesRead prefixes files (w.outcomeAt 2).output with
  | ok lines =>
    rw [hread] at hlines
    obtain ⟨shown, hshown⟩ := exists_printed f c.topCount hread
    have hfinish := exec_finishReport_of_lines hshown hlines
    rw [exec_reportingFailure_ok (haction.trans hfinish)]
    exact ⟨3, reports_of_lines (by omega) le_rfl hall h (by simp [hne]) hread
      (hafter.calls_afterCall files) hshown (congrArg (· ++ _) hafter.out)
      (hafter.view_afterCall (callOf c .annotate files none))⟩
  | error e =>
    rw [hread] at hlines
    obtain ⟨err, hexec⟩ := exec_reportingFailure_error (haction.trans (exec_bind_error hlines))
    rw [hexec]
    obtain ⟨p, hp⟩ := List.exists_mem_of_ne_nil files hne
    refine ⟨3, reports_of_fault (by omega) le_rfl hall ?_ ?_ ?_ hafter.out
      (hafter.view_afterCall (callOf c .annotate files none))⟩
    · exact ⟨fun _ => ⟨files, h, p, (mem_filesFound_iff h).mp hp⟩, fun _ => by omega⟩
    · intro files' lines hfiles'
      rw [h] at hfiles'
      cases hfiles'
      rw [hread]
      exact nofun
    · rw [h]
      exact hafter.calls_afterCall files

/-- The part of a run behind the instrumented program. -/
theorem exists_reports_of_finish (hprefixes : c.prefixes = .ok prefixes)
    (hcount : 1 ≤ c.topCount) :
    ∃ n, Reports c f pattern prefixes m w n ((reportingFailure action).exec start).1
      ((reportingFailure action).exec start).2 := by
  cases hfound : filesFound (w.after 2).view c.workDir pattern with
  | error e => exact exists_reports_of_search_error hafter haction hpattern hfound
  | ok files =>
    by_cases hnil : files = []
    · rw [hnil] at hfound
      exact exists_reports_of_no_output hafter haction hpattern hfound
    · by_cases hpass : (w.outcomeAt 2).Passes
      · exact exists_reports_of_annotator_passes hafter haction hpattern hprefixes hcount hfound
          hnil hpass
      · exact exists_reports_of_annotator_fails hafter haction hpattern hfound hnil hpass

end Finish

/-- The part of a run behind the cleaning. -/
theorem exists_reports_of_relay (f : Format) (hprefixes : c.prefixes = .ok prefixes)
    (hcount : 1 ≤ c.topCount) (hpattern : PathPattern.parse c.outputPattern = .ok pattern)
    (start : Machine) (hcalls : start.calls = m.calls) (hout : start.out = m.out) :
    let run := (reportingFailure
      (relay c instrumentationLinks [] >>= fun _ => finishReport c f)).exec start
    ∃ n, Reports c f pattern prefixes m start.world n run.1 run.2 := by
  have htwo (files : List Path) := callsOf_instrumentationLinks c start.world files
  rcases exec_relay c instrumentationLinks [] start with
    ⟨hall, hrelay⟩ | ⟨k, hk, hbefore, hfails, fault, call, hcall, hexit, hrelay⟩
  · have hafter : Instrumented c m start.world
        (start.afterCalls (callsOf c instrumentationLinks [] start.world)) := by
      constructor
      · exact start.world_afterCalls _
      · exact hall
      · intro files
        rw [Machine.calls_afterCalls, hcalls, ← htwo files]
      · rw [Machine.out_afterCalls, hout]
    exact exists_reports_of_finish hafter (exec_bind_ok hrelay) hpattern hprefixes hcount
  · obtain ⟨err, hexec⟩ := exec_reportingFailure_error (exec_bind_error hrelay)
    have hk : k < 2 := hk
    rw [hexec]
    let files := filesOf (filesFound (start.world.after 2).view c.workDir pattern)
    rw [htwo files, List.getElem?_take_of_lt hk] at hcall
    rw [htwo files, List.take_take, min_eq_left (by omega)]
    refine ⟨k + 1, reports_of_fails (by omega) hbefore hfails (by omega) hcall hexit ?_ ?_ ?_⟩
    · exact (Machine.calls_afterCalls _ _).trans (by rw [hcalls])
    · exact (Machine.out_afterCalls _ _).trans hout
    · refine (Machine.view_afterCalls _ _).trans ?_
      rw [List.length_take, min_eq_left]
      exact Nat.succ_le_of_lt (lt_of_lt_of_le hk (by simp [instrumentationCalls]))

theorem exec_reportHotLines_of_not_cleaned (f : Format)
    (hpattern : PathPattern.parse c.outputPattern = .ok pattern) (m : Machine) {e : FileError}
    (hclean : (m.view.afterCleaning m.refused c.workDir pattern).1 = .error e) :
    ∃ err, (reportHotLines c f.name).exec m =
      (.ok 1, { m with view := (m.view.afterCleaning m.refused c.workDir pattern).2, err }) := by
  obtain ⟨err, htidy⟩ := exec_tidy_error hpattern hclean
  rw [reportHotLines_eq, exec_bind_ok htidy]
  exact ⟨err, rfl⟩

theorem exists_reports_of_cleaned (f : Format) (hprefixes : c.prefixes = .ok prefixes)
    (hcount : 1 ≤ c.topCount) (hpattern : PathPattern.parse c.outputPattern = .ok pattern)
    (m : Machine) (hclean : (m.view.afterCleaning m.refused c.workDir pattern).1 = .ok ()) :
    ∃ n, Reports c f pattern prefixes m
      ⟨(m.view.afterCleaning m.refused c.workDir pattern).2, m.replies⟩ n
      ((reportHotLines c f.name).exec m).1 ((reportHotLines c f.name).exec m).2 := by
  obtain ⟨err, htidy⟩ := exec_tidy_ok hpattern hclean
  rw [reportHotLines_eq, exec_bind_ok htidy, if_neg (by decide)]
  exact exists_reports_of_relay f hprefixes hcount hpattern { m with view := _, err } rfl rfl

/-- **Reporting hot lines.** If the stale outputs cannot all be deleted, the result is 1 and no tool
is started. Otherwise the calls are made one after the other, each only if the one before has ended
with the code zero, the third only if the tools have left outputs behind; and something is printed
only if the result is zero. -/
theorem reportHotLines_reports (c : Config) (f : Format) (m : Machine) {pattern : PathPattern}
    {prefixes : List String} (hcount : 1 ≤ c.topCount) (hprefixes : c.prefixes = .ok prefixes)
    (hpattern : PathPattern.parse c.outputPattern = .ok pattern) :
    let cleaning := m.view.afterCleaning m.refused c.workDir pattern
    let run := (reportHotLines c f.name).exec m
    (∀ e, cleaning.1 = .error e →
      run.1 = .ok 1 ∧ run.2.calls = m.calls ∧ run.2.out = m.out ∧ run.2.view = cleaning.2) ∧
    (cleaning.1 = .ok () →
      ∃ n, Reports c f pattern prefixes m ⟨cleaning.2, m.replies⟩ n run.1 run.2) := by
  intro cleaning run
  constructor
  · intro e hclean
    obtain ⟨err, hrun⟩ := exec_reportHotLines_of_not_cleaned f hpattern m hclean
    have hrun : run = (.ok 1, { m with view := cleaning.2, err }) := hrun
    rw [hrun]
    exact ⟨rfl, rfl, rfl, rfl⟩
  · exact exists_reports_of_cleaned f hprefixes hcount hpattern m

end Reports

/-! ## A cost that is not read -/

/-- The defaults for a program at `/p` that leaves the file `o` behind. -/
def loneOutputConfig : Config := { defaultsIn "p" with outputPattern := "o" }

/-- A machine on which the instrumented program leaves the file `/p/o` behind, and the annotator
writes `output`. -/
def loneOutputMachine (output : Bytes) : Machine where
  view := loneDirectory "p"
  environment := ⟨[], [], none⟩
  process := 1
  refused := fun _ => false
  replies :=
    [.silent, ⟨[.put ["p", "o"] (.file [] false)], .finished 0 []⟩, ⟨[], .finished 0 output⟩]
  calls := []
  out := ""
  err := ""

/-- A cost of `k + 1` digits at the location `src/a`. -/
def costOutput (k : Nat) : Bytes := List.replicate (k + 1) 49 ++ [32, 115, 114, 99, 47, 97]

/-- The same as a text. -/
def costText (k : Nat) : List Char := List.replicate (k + 1) '1' ++ ' ' :: ['s', 'r', 'c', '/', 'a']

theorem decodeLenient_costOutput (k : Nat) :
    Text.Utf8.decodeLenient (costOutput k) = costText k := by
  rw [Text.Utf8.decodeLenient_ascii]
  · rw [costOutput, List.map_append, List.map_replicate]
    rfl
  · have htail : ∀ b ∈ ([32, 115, 114, 99, 47, 97] : Bytes), b < 0x80 := by simp
    intro b hb
    rcases List.mem_append.mp hb with hb | hb
    · rw [List.eq_of_mem_replicate hb]
      decide
    · exact htail b hb

theorem isLineBreak_costText (k : Nat) : ∀ c ∈ costText k, Text.isLineBreak c = false := by
  have htail : ∀ c ∈ [' ', 's', 'r', 'c', '/', 'a'], Text.isLineBreak c = false := by
    simp [Text.isLineBreak]
  intro c hc
  rcases List.mem_append.mp hc with hc | hc
  · rw [List.eq_of_mem_replicate hc]
    decide
  · exact htail c hc

theorem parse_costText {k : Nat} (hk : Text.maxDigits ≤ k) :
    CostLine.parse ["src/", "./src/", "/p/src/"] (costText k) = .error (.tooManyDigits (k + 1)) := by
  have hnumeral : IsNumeral (List.replicate (k + 1) '1') := by
    refine ⟨by simp, fun c hc => ?_⟩
    rw [List.eq_of_mem_replicate hc]
    decide
  have hlocation : IsLocation ["src/", "./src/", "/p/src/"] ['s', 'r', 'c', '/', 'a'] :=
    ⟨"src/", by simp, ['a'], rfl⟩
  rw [costText, parse_of_clean hnumeral.isCost (by simp [Text.isBlank]) hlocation (by simp),
    Text.filter_comma_of_isDigit hnumeral.2, List.length_replicate, if_pos (by omega)]

theorem linesRead_costOutput {k : Nat} (hk : Text.maxDigits ≤ k) {files : List Path} (hne : files ≠ [])
    (read : List CostLine) :
    linesRead ["src/", "./src/", "/p/src/"] files (costOutput k) ≠ .ok read := by
  intro h
  rw [linesRead, if_neg hne, decodeLenient_costOutput] at h
  obtain ⟨parsed, hparsed, -⟩ := ofText_eq_ok_iff.mp h
  rw [String.toList_ofList, Text.lines_eq_singleton (by simp [costText]) (isLineBreak_costText k)]
    at hparsed
  obtain ⟨l, parsed, hl, -, -⟩ := List.forall₂_cons_left_iff.mp hparsed
  rw [parse_costText hk] at hl
  cases hl

theorem prefixes_loneOutput : loneOutputConfig.prefixes = .ok ["src/", "./src/", "/p/src/"] := by
  decide +kernel

theorem parse_loneOutput :
    PathPattern.parse loneOutputConfig.outputPattern = .ok ⟨[.exactly "o"], false⟩ := by
  decide +kernel

theorem afterCleaning_loneOutput (output : Bytes) :
    (loneOutputMachine output).view.afterCleaning (loneOutputMachine output).refused
      loneOutputConfig.workDir ⟨[.exactly "o"], false⟩ = (.ok (), loneDirectory "p") := by
  cbv

theorem filesFound_loneOutput (output : Bytes) :
    filesFound ((World.mk (loneDirectory "p") (loneOutputMachine output).replies).after 2).view
      loneOutputConfig.workDir ⟨[.exactly "o"], false⟩ = .ok [⟨.slash, ["p", "o"]⟩] := by
  cbv

theorem outcomeAt_loneOutput (output : Bytes) :
    (World.mk (loneDirectory "p") (loneOutputMachine output).replies).outcomeAt 2 =
      .finished 0 output := by
  cbv

theorem passes_loneOutput (output : Bytes) {k : Nat} (hk : k < 3) :
    ((World.mk (loneDirectory "p") (loneOutputMachine output).replies).outcomeAt k).Passes := by
  have hbuild : (World.mk (loneDirectory "p") (loneOutputMachine output).replies).outcomeAt 0 =
      .finished 0 [] := by cbv
  have hinstrument :
      (World.mk (loneDirectory "p") (loneOutputMachine output).replies).outcomeAt 1 =
        .finished 0 [] := by cbv
  interval_cases k
  · exact ⟨[], hbuild⟩
  · exact ⟨[], hinstrument⟩
  · exact ⟨output, outcomeAt_loneOutput output⟩

theorem reports_loneOutput :
    let run := (reportHotLines loneOutputConfig Format.text.name).exec (loneOutputMachine [])
    ∃ n, Reports loneOutputConfig .text ⟨[.exactly "o"], false⟩ ["src/", "./src/", "/p/src/"]
      (loneOutputMachine []) ⟨loneDirectory "p", (loneOutputMachine []).replies⟩ n run.1 run.2 := by
  have h := (reportHotLines_reports loneOutputConfig .text (loneOutputMachine []) (by decide)
    prefixes_loneOutput parse_loneOutput).2
  rw [afterCleaning_loneOutput] at h
  exact h rfl

/-- All tools pass, and still the result is not zero: a cost has too many digits. -/
theorem not_forall_passes_succeeds :
    ¬ ∀ (c : Config) (f : Format) (m : Machine) (pattern : PathPattern) (prefixes : List String),
      1 ≤ c.topCount → c.prefixes = .ok prefixes →
      PathPattern.parse c.outputPattern = .ok pattern →
      (m.view.afterCleaning m.refused c.workDir pattern).1 = .ok () →
      (∀ k < 3, (World.outcomeAt
        ⟨(m.view.afterCleaning m.refused c.workDir pattern).2, m.replies⟩ k).Passes) →
      ((reportHotLines c f.name).exec m).1 = .ok 0 := by
  intro h
  let m := loneOutputMachine (costOutput Text.maxDigits)
  have hclean := afterCleaning_loneOutput (costOutput Text.maxDigits)
  have hzero := h loneOutputConfig .text m _ _ (by decide) prefixes_loneOutput parse_loneOutput
    (by rw [hclean]) ?_
  · obtain ⟨n, hreports⟩ := exists_reports_of_cleaned .text prefixes_loneOutput (by decide)
      parse_loneOutput m (by rw [hclean])
    obtain ⟨-, files, lines, hfiles, hlines⟩ := hreports.succeeds_iff.mp hzero
    rw [hclean, filesFound_loneOutput] at hfiles
    rw [hclean, outcomeAt_loneOutput] at hlines
    cases hfiles
    exact linesRead_costOutput le_rfl (by simp) lines hlines
  · rw [hclean]
    intro k hk
    exact passes_loneOutput (costOutput Text.maxDigits) hk

end HotPath
