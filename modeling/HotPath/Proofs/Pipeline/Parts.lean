import HotPath.Proofs.Machine.Calls
import HotPath.Proofs.Machine.Rules

/-!
# Parts of pipelines

A pipeline runs stages, looks for outputs, deletes them, and prints; the rest is put together from
that. Here is how, once for all: a property of actions that is `Sequential` holds of a report as
soon as it holds of the search, of the stages and of what is printed, and one that is `Handling`
holds of the whole pipelines.
-/

namespace HotPath.Run

variable {c : Config}

/-! ## Reports -/

/-- The report on the outputs that are there. -/
def reportFound (c : Config) (format : String) : Run Int := do
  showReport format (← hotLines c)
  return 0

/-- The report on what the annotator has written. -/
def reportAnnotated (c : Config) (format : String) (annotated : Bytes) : Run Int := do
  let prefixes ← lift .sourceDir c.prefixes
  let lines ← lift .report
    (Report.hottestLines prefixes c.topCount (.ofList (Text.Utf8.decodeLenient annotated)))
  showReport format lines
  return 0

/-- What is done from the start of the instrumenter on. -/
def instrumentAndReport (c : Config) (format : String) : Run Int := do
  let _ ← perform c .instrument [] none
  reportFound c format

/-- What is done behind the cleaning. -/
def buildAndReport (c : Config) (format : String) : Run Int := do
  let _ ← perform c .build [] none
  instrumentAndReport c format

theorem reportHotLines_eq_bind (c : Config) (format : String) :
    reportHotLines c format = tidy c >>= fun status =>
      if status ≠ 0 then pure status else reportingFailure (buildAndReport c format) := rfl

theorem reportFound_eq_bind (c : Config) (format : String) :
    reportFound c format = findOutputs c.workDir c.outputPattern >>= fun found =>
      if found = [] then showReport format [] >>= fun _ => pure 0
      else perform c .annotate found none >>= reportAnnotated c format := by
  simp only [reportFound, hotLines, bind_assoc]
  refine bind_congr fun found => ?_
  by_cases hnil : found = []
  · rw [if_pos hnil, if_pos hnil, pure_bind]
  · rw [if_neg hnil, if_neg hnil]
    simp only [bind_assoc]
    rfl

/-! ## Checks -/

/-- Whether a file can be written at a path and deleted there. -/
def probeAt (p : Path) : Run Check :=
  tryCatch
    (do
      writeFile p probeContent
      deleteFile p
      return .pass "work_dir_writable")
    fun fault =>
      match fault with
      | .file error => return .fail "work_dir_writable" error.message
      | fault => throw fault

theorem probeWriting_eq_bind (workDir : Path) :
    probeWriting workDir = get >>= fun m => probeAt (workDir.child (probeName m.process)) := rfl

/-- What is said about the checks. -/
def reportChecks (checks : List Check) : Run Int := do
  checks.forM fun k => reportLine ("[" ++ k.status ++ "] " ++ k.name)
  if checks.any (!·.passed) then
    reportLine (failuresText checks)
    return 2
  return 0

theorem reportPrerequisites_eq_bind (c : Config) :
    reportPrerequisites c = prerequisites c >>= reportChecks := rfl

/-! ## One action after the other -/

namespace Sequential

variable {P : (α : Type) → Run α → Prop} (hP : Sequential P)

include hP

theorem showReport (hprint : ∀ s, P _ (printLine s)) (format : String)
    (lines : List Report.CostLine) : P _ (showReport format lines) := by
  refine hP.bind (hP.lift (fun _ _ => by nofun) _) fun text => ?_
  by_cases htext : text ≠ ""
  · rw [if_pos htext]
    exact hprint text
  · rw [if_neg htext]
    exact hP.pure ()

theorem reportAnnotated (hprint : ∀ s, P _ (printLine s)) (c : Config) (format : String)
    (annotated : Bytes) : P _ (reportAnnotated c format annotated) := by
  refine hP.bind (hP.lift (fun _ _ => by nofun) _) fun prefixes => ?_
  refine hP.bind (hP.lift (fun _ _ => by nofun) _) fun lines => ?_
  exact hP.bind (hP.showReport hprint format lines) fun _ => hP.pure 0

theorem reportChecks (hreport : ∀ s, P _ (reportLine s)) (checks : List Check) :
    P _ (reportChecks checks) := by
  refine hP.bind (hP.forM (fun _ => hreport _) checks) fun _ => ?_
  by_cases hmissing : checks.any (!·.passed) = true
  · rw [if_pos hmissing]
    exact hP.bind (hreport _) fun _ => hP.pure 2
  · rw [if_neg hmissing]
    exact hP.pure 0

theorem discardOutputs {workDir : Path} {pattern : String}
    (hfind : P _ (findOutputs workDir pattern)) (hdiscard : ∀ p, P _ (discard p)) :
    P _ (discardOutputs workDir pattern) :=
  hP.bind hfind fun found => hP.bind (hP.forM hdiscard found) fun _ => hP.pure found

theorem relay (hperform : ∀ s outputs input, P _ (perform c s outputs input)) (links : List Link)
    (data : Bytes) : P _ (relay c links data) := by
  induction links generalizing data with
  | nil => exact hP.pure data
  | cons l links ih => exact hP.bind (hperform _ _ _) ih

section Search

variable (hfind : P _ (findOutputs c.workDir c.outputPattern))
  (hperform : ∀ s outputs input, P _ (perform c s outputs input))

include hfind hperform

theorem hotLines : P _ (hotLines c) := by
  refine hP.bind hfind fun found => ?_
  by_cases hfound : found = []
  · rw [if_pos hfound]
    exact hP.pure []
  · rw [if_neg hfound]
    refine hP.bind (hperform _ _ _) fun annotated => ?_
    refine hP.bind (hP.lift (fun _ _ => by nofun) _) fun prefixes => ?_
    exact hP.lift (fun _ _ => by nofun) _

variable (hprint : ∀ s, P _ (printLine s)) (format : String)

include hprint

theorem reportFound : P _ (reportFound c format) :=
  hP.bind (hP.hotLines hfind hperform) fun lines =>
    hP.bind (hP.showReport hprint format lines) fun _ => hP.pure 0

theorem buildAndReport : P _ (buildAndReport c format) :=
  hP.bind (hperform _ _ _) fun _ => hP.bind (hperform _ _ _) fun _ =>
    hP.reportFound hfind hperform hprint format

end Search

end Sequential

/-! ## Actions whose faults are handled -/

namespace Handling

variable {P : (α : Type) → Run α → Prop} (hP : Handling P)

include hP

theorem discard {p : Path} (hdelete : P _ (deleteFile p)) : P _ (discard p) := by
  refine hP.catching hdelete fun fault => ?_
  rcases fault with _ | ⟨⟨cause, path⟩⟩ | _ | _ | _ | _ | _
  case file =>
    cases cause with
    | notFound => exact hP.pure ()
    | _ => exact hP.throw _
  all_goals exact hP.throw _

theorem probeAt {p : Path} (hwrite : ∀ content, P _ (writeFile p content))
    (hdelete : P _ (deleteFile p)) : P _ (probeAt p) := by
  refine hP.catching ?_ fun fault => ?_
  · exact hP.bind (hwrite _) fun _ => hP.bind hdelete fun _ => hP.pure _
  · cases fault with
    | file error => exact hP.pure _
    | stage | nulCharacter | pattern | sourceDir | report | load => exact hP.throw _

variable (hreport : ∀ s, P _ (reportLine s))

include hreport

theorem reportingFailure {action : Run Int} (h : P _ action) : P _ (reportingFailure action) := by
  refine hP.catching h fun fault => ?_
  cases fault with
  | stage failure => exact hP.bind (hreport _) fun _ => hP.pure _
  | file | nulCharacter | pattern | sourceDir | report | load => exact hP.throw _

theorem tidy (hdiscard : P _ (discardOutputs c.workDir c.outputPattern)) : P _ (tidy c) := by
  refine hP.catching ?_ fun fault => ?_
  · refine hP.bind hdiscard fun removed => ?_
    by_cases hremoved : removed = []
    · rw [if_pos hremoved]
      exact hP.bind (hreport _) fun _ => hP.pure 0
    · rw [if_neg hremoved]
      exact hP.bind (hreport _) fun _ => hP.pure 0
  · cases fault with
    | file error => exact hP.bind (hreport _) fun _ => hP.pure 1
    | stage | nulCharacter | pattern | sourceDir | report | load => exact hP.throw _

variable (hperform : ∀ s outputs input, P _ (perform c s outputs input))

include hperform

theorem drawFlamegraph (hsave : ∀ graph, P _ (saveFlamegraph c graph)) :
    P _ (drawFlamegraph c) := by
  apply hP.reportingFailure hreport
  refine hP.bind (hperform _ _ _) fun _ => hP.bind (hperform _ _ _) fun _ => ?_
  refine hP.bind (hperform _ _ _) fun trace => hP.bind (hperform _ _ _) fun folded => ?_
  refine hP.bind (hperform _ _ _) fun graph => hP.bind (hsave graph) fun _ => ?_
  exact hP.bind (hreport _) fun _ => hP.pure 0

variable (hfind : P _ (findOutputs c.workDir c.outputPattern)) (hprint : ∀ s, P _ (printLine s))

include hfind hprint

theorem reportOutputs (format : String) : P _ (reportOutputs c format) :=
  hP.reportingFailure hreport (hP.reportFound hfind hperform hprint format)

theorem reportHotLines (hdiscard : P _ (discardOutputs c.workDir c.outputPattern))
    (format : String) : P _ (reportHotLines c format) := by
  refine hP.bind (hP.tidy hreport hdiscard) fun status => ?_
  by_cases hstatus : status ≠ 0
  · rw [if_pos hstatus]
    exact hP.pure status
  · rw [if_neg hstatus]
    exact hP.reportingFailure hreport (hP.buildAndReport hfind hperform hprint format)

end Handling

end HotPath.Run
