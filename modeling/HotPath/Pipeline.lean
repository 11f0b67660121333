import HotPath.Outputs
import HotPath.Prerequisites

/-!
# Pipelines

What the commands do. A pipeline gives an exit status; a stage that fails ends it with the status of
the failure, and its text goes to standard error.

* `Run.drawFlamegraph`: draws a flame graph from samples. The graph is written only if every stage
  has succeeded.
* `Run.reportHotLines`: reports the hottest source lines of an instrumented run.
* `Run.reportOutputs`, `Run.tidy`, `Run.reportPrerequisites`: the report alone, deleting stale
  outputs, and the prerequisites.
-/

namespace HotPath.Run

open Report

/-- Ends with the status of a stage that has failed; other faults go on. -/
def reportingFailure (action : Run Int) : Run Int :=
  tryCatch action fun fault =>
    match fault with
    | .stage failure => do
      reportLine failure.message
      return failure.status
    | fault => throw fault

/-- Deletes stale outputs. -/
def tidy (c : Config) : Run Int :=
  tryCatch
    (do
      let removed ← discardOutputs c.workDir c.outputPattern
      if removed = [] then reportLine ("Nothing to clean (" ++ c.outputPattern ++ ")")
      else reportLine ("Removed " ++ toString removed.length ++ " stale file(s): " ++
        ", ".intercalate (removed.map (·.name)))
      return 0)
    fun fault =>
      match fault with
      | .file error => do
        reportLine ("clean failed: " ++ error.message)
        return 1
      | fault => throw fault

/-- The hottest lines of the project's own sources in the outputs that are there. Without outputs
there are none, and no tool is started. -/
def hotLines (c : Config) : Run (List CostLine) := do
  let found ← findOutputs c.workDir c.outputPattern
  if found = [] then return []
  let annotated ← perform c .annotate found none
  let prefixes ← lift .sourceDir c.prefixes
  lift .report
    (hottestLines prefixes c.topCount (.ofList (Text.Utf8.decodeLenient annotated)))

/-- Prints a report unless it is empty. -/
def showReport (format : String) (lines : List CostLine) : Run Unit := do
  let text ← lift .report ((render format lines).mapError .format)
  if text ≠ "" then printLine text

def reportOutputs (c : Config) (format : String) : Run Int :=
  reportingFailure do
    showReport format (← hotLines c)
    return 0

def saveFlamegraph (c : Config) (graph : Bytes) : Run Unit := writeFile c.flamegraph graph

/-- Builds, samples, and draws the flame graph. -/
def drawFlamegraph (c : Config) : Run Int :=
  reportingFailure do
    let _ ← perform c .build [] none
    let _ ← perform c .sample [] none
    let trace ← perform c .exportTrace [] none
    let folded ← perform c .fold [] (some trace)
    let graph ← perform c .render [] (some folded)
    saveFlamegraph c graph
    reportLine ("Flamegraph: " ++ c.flamegraph.text)
    return 0

/-- Deletes stale outputs, builds, runs the program under instrumentation, and reports. -/
def reportHotLines (c : Config) (format : String) : Run Int := do
  let status ← tidy c
  if status ≠ 0 then return status
  reportingFailure do
    let _ ← perform c .build [] none
    let _ ← perform c .instrument [] none
    showReport format (← hotLines c)
    return 0

def reportPrerequisites (c : Config) : Run Int := do
  let checks ← prerequisites c
  checks.forM fun k => reportLine ("[" ++ k.status ++ "] " ++ k.name)
  if checks.any (!·.passed) then
    reportLine (failuresText checks)
    return 2
  return 0

end HotPath.Run
