import HotPath.Environment
import HotPath.Manifest
import HotPath.Shell.Words
import HotPath.SourceDir

/-!
# Configurations

A configuration says what to profile and how. It is loaded from a request, the environment and the
file system; what the request leaves open keeps its default.

* `Config`: the fields with their defaults.
* `Config.load`: the configuration of a request, or the first reason why there is none.
-/

namespace HotPath

open FileSystem

/-- What to profile and how. -/
structure Config where
  /-- The directory of the project, in which every tool is started. -/
  workDir : Path
  binary : String
  tools : Tools := defaultTools
  buildArgs : List String := ["build", "--release"]
  /-- The arguments of the program when it is sampled. -/
  samplingArgs : List String := ["1000"]
  /-- The arguments of the program when it is instrumented. -/
  instrumentationArgs : List String := []
  rendererArgs : List String := []
  annotateArgs : List String := []
  /-- The directory of the sources, seen from the work directory. -/
  sourceDir : String := "src"
  /-- The greatest number of lines in a report. -/
  topCount : Int := 10
  /-- The pattern of the files that an instrumented run leaves behind. -/
  outputPattern : String := "cachegrind.out.*"
  traceName : String := "perf.data"
  flamegraphName : String := "flamegraph.svg"

namespace Config

def releaseDirectory : String := "target/release"

/-- The program that the build makes. -/
def program (c : Config) : Path := (c.workDir.join releaseDirectory).join c.binary

def trace (c : Config) : Path := c.workDir.join c.traceName

def flamegraph (c : Config) : Path := c.workDir.join c.flamegraphName

/-- How the locations of the project's own sources start. -/
def prefixes (c : Config) : Except SourceDirError (List String) :=
  locationPrefixes c.workDir c.sourceDir

end Config

/-- What is asked for a single option. -/
inductive Setting (α : Type) where
  /-- Nothing: the default stays. -/
  | missing
  /-- The option is named but has no value. -/
  | empty
  | value (a : α)
  deriving Repr, DecidableEq

namespace Setting

def value? {α : Type} : Setting α → Option α
  | value a => some a
  | _ => none

def ofOption {α : Type} : Option α → Setting α
  | some a => value a
  | none => missing

end Setting

/-- What is asked for a configuration. -/
structure Request where
  workDir : Setting String := .missing
  tools : ToolRole → Setting String := fun _ => .missing
  binary : Setting String := .missing
  samplingArgs : Setting String := .missing
  instrumentationArgs : Setting String := .missing
  rendererArgs : Setting String := .missing
  annotateArgs : Setting String := .missing
  sourceDir : Setting String := .missing
  topCount : Setting Int := .missing

/-- The kinds of options whose value cannot be left out. -/
inductive NeededValue where
  | workDir
  | arguments
  | sourceDir
  | topCount
  deriving Repr, DecidableEq

inductive LoadError where
  | workDir (reason : WorkDirError)
  | manifest (reason : ManifestError)
  | arguments (reason : Shell.SplitError)
  | sourceDir (reason : SourceDirError)
  | topCountTooSmall (count : Int)
  | noValue (option : NeededValue)
  deriving Repr, DecidableEq

def LoadError.message : LoadError → String
  | .workDir reason => reason.message
  | .manifest reason => reason.message
  | .arguments reason => reason.message
  | .sourceDir reason => reason.message
  | .topCountTooSmall count => Text.textAround "top_n must be >= 1 (got " count ")"
  | .noValue .workDir => "expected str, bytes or os.PathLike object, not list"
  | .noValue .arguments => "'list' object has no attribute 'read'"
  | .noValue .sourceDir => "'list' object has no attribute 'strip'"
  | .noValue .topCount => "'<' not supported between instances of 'list' and 'int'"

/-- Whether the error is shown as a mistake in the use of the command. The others end the
program. -/
def LoadError.isUsage : LoadError → Bool
  | .workDir .unknownHome | .workDir .noWorkingDirectory | .workDir (.linkLoop _)
  | .workDir (.file _) => false
  | .manifest (.file _) | .manifest (.packageNotATable _) => false
  | .noValue _ => false
  | _ => true

def binaryVariable : String := "PERFCHAIN_BIN"

/-- The words of a line of arguments; without a line the default stays. -/
def argumentsOf (line : Setting String) (default : List String) :
    Except LoadError (List String) :=
  match line with
  | .missing => .ok default
  | .empty => .error (.noValue .arguments)
  | .value line => (Shell.split line).mapError .arguments

/-- The name of the program: the one asked for, else the one of the environment, else the one of the
manifest. -/
def chooseBinary (v : View) (vars : Variables) (asked : Setting String) (workDir : Path) :
    Except ManifestError String :=
  match (asked.value?.bind nonempty?).or ((vars.lookup binaryVariable).bind nonempty?) with
  | some name => .ok name
  | none => defaultBinary v workDir

def chooseSourceDir (asked : Setting String) (default : String) : Except LoadError String :=
  match asked with
  | .missing => .ok default
  | .empty => .error (.noValue .sourceDir)
  | .value text => (plainSourceDir text).mapError .sourceDir

def chooseTopCount (asked : Setting Int) (default : Int) : Except LoadError Int :=
  match asked with
  | .missing => .ok default
  | .empty => .error (.noValue .topCount)
  | .value n => if n < 1 then .error (.topCountTooSmall n) else .ok n

/-- The configuration of a request. The home directory comes from the environment `e`, the tools and
the name of the program from `vars`. -/
def Config.load (v : View) (e : Environment) (vars : Variables) (r : Request) :
    Except LoadError Config := do
  if r.workDir = .empty then throw (.noValue .workDir)
  let workDir ← (findWorkDir v e r.workDir.value?).mapError .workDir
  let binary ← (chooseBinary v vars r.binary workDir).mapError .manifest
  let tools := chooseTools (fun t => (r.tools t).value?) vars
  let base : Config := { workDir, binary, tools }
  let samplingArgs ← argumentsOf r.samplingArgs base.samplingArgs
  let instrumentationArgs ← argumentsOf r.instrumentationArgs base.instrumentationArgs
  let rendererArgs ← argumentsOf r.rendererArgs base.rendererArgs
  let annotateArgs ← argumentsOf r.annotateArgs base.annotateArgs
  let sourceDir ← chooseSourceDir r.sourceDir base.sourceDir
  let topCount ← chooseTopCount r.topCount base.topCount
  return { base with samplingArgs, instrumentationArgs, rendererArgs, annotateArgs, sourceDir,
                     topCount }

end HotPath
