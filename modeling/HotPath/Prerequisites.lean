import HotPath.FileSystem.Search
import HotPath.Machine

/-!
# Prerequisites

Before a project is profiled it can be checked: whether the tools are there, whether the directory
holds a project, and whether files can be written to it.

* `Run.prerequisites`: all checks of a configuration.
* `failuresText`: what is missing.
-/

namespace HotPath

open FileSystem

structure Check where
  name : String
  passed : Bool
  details : Option String
  deriving Repr, DecidableEq

def Check.pass (name : String) : Check := ⟨name, true, none⟩

def Check.fail (name details : String) : Check := ⟨name, false, some details⟩

def Check.status (c : Check) : String := if c.passed then "pass" else "fail"

/-- How the tool of a role can be installed. -/
def ToolRole.hint : ToolRole → String
  | build => "Install Rust via rustup (https://rustup.rs) so `cargo` is on PATH."
  | sampler => "Install perf (e.g., `apt install linux-tools-common linux-tools-$(uname -r)`)."
  | folder =>
    "Clone https://github.com/brendangregg/FlameGraph and put it on PATH " ++
      "(or set PERFCHAIN_FOLDER)."
  | renderer =>
    "Clone https://github.com/brendangregg/FlameGraph and put it on PATH " ++
      "(or set PERFCHAIN_RENDERER)."
  | instrumenter => "Install valgrind (e.g., `apt install valgrind`)."
  | annotator => "cg_annotate ships with valgrind; install valgrind."

inductive RoleError where
  | unknown (name : String)
  deriving Repr, DecidableEq

def RoleError.message : RoleError → String
  | .unknown name => Text.quote name

def availability (role : String) : String := role ++ "_available"

def lookForTool (v : View) (searchPath : String) (r : ToolRole) (tool : String) : Check :=
  if v.findsExecutable searchPath tool then .pass (availability r.name)
  else .fail (availability r.name) ("`" ++ tool ++ "` not found. " ++ r.hint)

/-- Whether the tool of a role given by its name is found. There is no hint for a tool that is
missing and plays no role. -/
def lookForNamed (v : View) (searchPath role tool : String) : Except RoleError Check :=
  match ToolRole.ofName? role with
  | some r => .ok (lookForTool v searchPath r tool)
  | none =>
    if v.findsExecutable searchPath tool then .ok (.pass (availability role))
    else .error (.unknown role)

def lookForManifest (v : View) (workDir : Path) : Except FileError Check := do
  let found ← v.isFile (workDir.child manifestName)
  return if found then .pass "build_manifest"
    else .fail "build_manifest"
      ("Missing " ++ manifestName ++ " in " ++ workDir.text ++
        " (pass --work-dir to the project root).")

/-- The name of the file that is written to see whether files can be written. -/
def probeName (process : Nat) : String := ".perfchain_write_test_" ++ toString process

def probeContent : Bytes := Text.Utf8.encode "ok"

namespace Run

/-- Whether files can be written to a directory and deleted there. -/
def probeWriting (workDir : Path) : Run Check := do
  let probe := workDir.child (probeName (← get).process)
  let name := "work_dir_writable"
  tryCatch
    (do
      writeFile probe probeContent
      deleteFile probe
      return .pass name)
    fun fault =>
      match fault with
      | .file error => return .fail name error.message
      | fault => throw fault

def prerequisites (c : Config) : Run (List Check) := do
  let m ← get
  let searchPath := m.environment.searchPath
  let tools := ToolRole.all.map fun r => lookForTool m.view searchPath r (c.tools r)
  let manifest ← lift .file (lookForManifest m.view c.workDir)
  let writable ← probeWriting c.workDir
  return tools ++ [manifest, writable]

end Run

/-- The failed checks with their details, one a line. -/
def failuresText (checks : List Check) : String :=
  let line (c : Check) : String :=
    match c.details.bind nonempty? with
    | some details => "- " ++ c.name ++ " - " ++ details
    | none => "- " ++ c.name
  "\n".intercalate ("Missing prerequisites:" :: (checks.filter (!·.passed)).map line)

end HotPath
