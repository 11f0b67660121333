import HotPath.Config
import HotPath.Report.Format

/-!
# Commands and flags

The commands of the program, the flags of each, and how they are described.

* `Command.flags`: the flags of a command, in the order of its usage.
-/

namespace HotPath.CommandLine

def programName : String := "perfchain"

def programHelp : String :=
  "Build a release binary and profile it (perf flamegraph or cachegrind hot lines)."

inductive Command where
  | profileSampling
  | profileInstrumentation
  | clean
  | annotate
  | check
  deriving Repr, DecidableEq

namespace Command

def all : List Command := [profileSampling, profileInstrumentation, clean, annotate, check]

def name : Command → String
  | profileSampling => "profile-sampling"
  | profileInstrumentation => "profile-instrumentation"
  | clean => "clean"
  | annotate => "annotate"
  | check => "check"

def help : Command → String
  | profileSampling => "Build, sample with perf, render flamegraph.svg."
  | profileInstrumentation => "Clean, build, run under cachegrind, print hot lines."
  | clean => "Delete stale instrumentation output files."
  | annotate => "Print hot lines from existing instrumentation outputs."
  | check => "Check that the configured tools and project layout are usable."

def ofName? (name : String) : Option Command := all.find? (·.name = name)

end Command

/-- The flags. Each but `help` takes a value. -/
inductive Flag where
  | help
  | workDir
  | binary
  | tool (r : ToolRole)
  | samplingArgs
  | rendererArgs
  | instrumentationArgs
  | topCount
  | sourceDir
  | annotateArgs
  | format
  deriving Repr, DecidableEq

namespace Flag

def word : Flag → String
  | help => "--help"
  | workDir => "--work-dir"
  | binary => "--bin"
  | tool .build => "--build-tool"
  | tool r => "--" ++ r.name
  | samplingArgs => "--sampling-args"
  | rendererArgs => "--renderer-args"
  | instrumentationArgs => "--instrumentation-args"
  | topCount => "--top-n"
  | sourceDir => "--source-dir"
  | annotateArgs => "--annotate-args"
  | format => "--format"

def shortHelp : String := "-h"

def choices (names : List String) : String := "\x7b" ++ ",".intercalate names ++ "\x7d"

/-- What stands for the value of a flag. -/
def placeholder : Flag → String
  | help => ""
  | workDir => "WORK_DIR"
  | binary => "BIN_NAME"
  | tool .build => "BUILD_TOOL"
  | tool r => r.name.toUpper
  | samplingArgs => "SAMPLING_ARGS"
  | rendererArgs => "RENDERER_ARGS"
  | instrumentationArgs => "INSTRUMENTATION_ARGS"
  | topCount => "TOP_N"
  | sourceDir => "SOURCE_DIR"
  | annotateArgs => "ANNOTATE_ARGS"
  | format => choices (Report.Format.all.map (·.name))

def description : Flag → String
  | help => "show this help message and exit"
  | workDir => "Project root (default: current directory)."
  | binary => "Binary name under target/release (default: Cargo.toml package name)."
  | tool .build => "Build tool (default: cargo)."
  | tool .sampler => "Sampling profiler (default: perf)."
  | tool .folder => "Stack folder (default: stackcollapse-perf.pl)."
  | tool .renderer => "Flamegraph renderer (default: flamegraph.pl)."
  | tool .instrumenter => "Instrumentation simulator (default: valgrind)."
  | tool .annotator => "Annotation tool (default: cg_annotate)."
  | samplingArgs => "Program args for the sampled run (default: \"1000\")."
  | rendererArgs => "Extra renderer args (e.g. \"--title lispy\")."
  | instrumentationArgs => "Program args for the instrumented run (default: none)."
  | topCount => "Number of hot lines to print (default: 10)."
  | sourceDir => "Project source directory used to filter lines (default: src)."
  | annotateArgs => "Extra annotation tool args (e.g. \"--show=Ir,D1mr\")."
  | format => ""

def isTool : Flag → Bool
  | tool _ => true
  | _ => false

/-- A flag in the line of a usage. -/
def usageItem (f : Flag) : String :=
  if f = help then "[" ++ shortHelp ++ "]" else "[" ++ f.word ++ " " ++ f.placeholder ++ "]"

def helpItem (f : Flag) : String :=
  if f = help then shortHelp ++ ", " ++ f.word else f.word ++ " " ++ f.placeholder

def errorName (f : Flag) : String := if f = help then shortHelp ++ "/" ++ f.word else f.word

def common : List Flag := [help, workDir, binary] ++ ToolRole.all.map tool

def reporting : List Flag := [topCount, sourceDir, annotateArgs, format]

end Flag

/-- The flags of a command, in the order of its usage. -/
def Command.flags : Command → List Flag
  | .profileSampling => Flag.common ++ [.samplingArgs, .rendererArgs]
  | .profileInstrumentation => Flag.common ++ [.instrumentationArgs] ++ Flag.reporting
  | .annotate => Flag.common ++ Flag.reporting
  | .clean | .check => Flag.common

end HotPath.CommandLine
