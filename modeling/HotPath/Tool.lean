/-!
# Tools

The tools that a profile is made with. Each plays a role and is named by a flag, else by a variable
of the environment, else by its default.

* `chooseTools`: the names that are in force.
-/

namespace HotPath

abbrev Variables := List (String × String)

def nonempty? (s : String) : Option String := if s = "" then none else some s

inductive ToolRole where
  /-- Makes the release build. -/
  | build
  /-- Records samples and exports them. -/
  | sampler
  /-- Folds the stacks of a trace. -/
  | folder
  /-- Draws folded stacks. -/
  | renderer
  /-- Runs a program under instrumentation. -/
  | instrumenter
  /-- Attributes the costs of an instrumented run to source lines. -/
  | annotator
  deriving Repr, DecidableEq

namespace ToolRole

/-- All roles, in the order in which they are listed. -/
def all : List ToolRole := [build, sampler, folder, renderer, instrumenter, annotator]

def name : ToolRole → String
  | build => "build"
  | sampler => "sampler"
  | folder => "folder"
  | renderer => "renderer"
  | instrumenter => "instrumenter"
  | annotator => "annotator"

def variableName : ToolRole → String
  | build => "PERFCHAIN_BUILD"
  | sampler => "PERFCHAIN_SAMPLER"
  | folder => "PERFCHAIN_FOLDER"
  | renderer => "PERFCHAIN_RENDERER"
  | instrumenter => "PERFCHAIN_INSTRUMENTER"
  | annotator => "PERFCHAIN_ANNOTATOR"

def default : ToolRole → String
  | build => "cargo"
  | sampler => "perf"
  | folder => "stackcollapse-perf.pl"
  | renderer => "flamegraph.pl"
  | instrumenter => "valgrind"
  | annotator => "cg_annotate"

theorem mem_all (r : ToolRole) : r ∈ all := by cases r <;> decide

def ofName? (name : String) : Option ToolRole := all.find? (·.name = name)

end ToolRole

abbrev Tools := ToolRole → String

def defaultTools : Tools := ToolRole.default

/-- The tool of a role is the first of its flag, its variable and its default that is not empty. -/
def chooseTools (flags : ToolRole → Option String) (vars : Variables) : Tools := fun r =>
  (((flags r).bind nonempty?).or ((vars.lookup r.variableName).bind nonempty?)).getD r.default

end HotPath
