import HotPath.CommandLine.Invocation
import HotPath.Pipeline

/-!
# The program

The program reads its command line, loads the configuration and runs the pipeline of the command. A
configuration that cannot be used is shown as a mistake in the use of the command.

* `Run.program`: the whole program.
-/

namespace HotPath

open CommandLine

inductive Ending where
  /-- The pipeline has given an exit status. -/
  | finished (status : Int)
  /-- The program has stopped before any pipeline. -/
  | stopped (status : Int)
  deriving Repr, DecidableEq

def Ending.status : Ending → Int
  | finished status => status
  | stopped status => status

namespace CommandLine.Invocation

/-- The name of the format that is asked for. A flag without a value asks for a format that does not
exist. -/
def formatName (i : Invocation) : String := i.format.value?.getD "[]"

def pipeline (i : Invocation) (c : Config) : Run Int :=
  match i.command with
  | .profileSampling => Run.drawFlamegraph c
  | .profileInstrumentation => Run.reportHotLines c i.formatName
  | .clean => Run.tidy c
  | .annotate => Run.reportOutputs c i.formatName
  | .check => Run.reportPrerequisites c

/-- The configuration that an invocation asks for on a machine. -/
def config (i : Invocation) (m : Machine) : Except LoadError Config :=
  Config.load m.view m.environment m.environment.bindings i.request

end CommandLine.Invocation

namespace Run

/-- Prints what is to be said when the program stops, and stops. -/
def stop (s : Stop) : Run Ending := do
  modify fun m => { m with out := m.out ++ s.out, err := m.err ++ s.err }
  return .stopped s.status

def program (line : List String) : Run Ending := do
  match Invocation.parse line with
  | .error s => stop s
  | .ok i =>
    match i.config (← get) with
    | .ok c => return .finished (← i.pipeline c)
    | .error reason =>
      if reason.isUsage then stop (.error none (.noConfiguration reason))
      else throw (.load reason)

end Run

end HotPath
