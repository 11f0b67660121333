import HotPath.Config
import HotPath.Failure

/-!
# Stages

A stage starts one tool. Two pipelines are made of stages: sampling builds, samples, exports the
trace, folds its stacks and draws them; instrumentation builds, runs the program under
instrumentation and annotates what that leaves behind.

* `Stage.command`: the tool and its arguments.
-/

namespace HotPath

inductive Stage where
  | build
  | sample
  | exportTrace
  | fold
  | render
  | instrument
  | annotate
  deriving Repr, DecidableEq

namespace Stage

def name : Stage → String
  | build => "build"
  | sample => "sample"
  | exportTrace => "export_trace"
  | fold => "fold"
  | render => "render"
  | instrument => "instrument"
  | annotate => "annotate"

def kind : Stage → FailureKind
  | build => .build
  | sample | instrument => .profiler
  | exportTrace | fold | render | annotate => .transform

/-- Whether the output of a stage is kept for the next one; else the user sees it. -/
def isCaptured : Stage → Bool
  | exportTrace | fold | render | annotate => true
  | build | sample | instrument => false

/-- The command of a stage. Only annotation looks at the files that instrumented runs have left
behind. -/
def command (c : Config) (outputs : List Path) : Stage → List String
  | build => c.tools .build :: c.buildArgs
  | sample =>
    [c.tools .sampler, "record", "-g", "-o", c.trace.text, "--", c.program.text] ++ c.samplingArgs
  | exportTrace => [c.tools .sampler, "script", "-i", c.trace.text]
  | fold => [c.tools .folder]
  | render => c.tools .renderer :: c.rendererArgs
  | instrument =>
    [c.tools .instrumenter, "--tool=cachegrind", "--cache-sim=yes", c.program.text] ++
      c.instrumentationArgs
  | annotate => c.tools .annotator :: (c.annotateArgs ++ outputs.map (·.text))

end Stage

end HotPath
