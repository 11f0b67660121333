import HotPath.FileSystem.Edit
import HotPath.Glob.Search
import HotPath.Report.Summary
import HotPath.Stage

/-!
# The machine

The machine is what a run of the program acts on: files, the tools it starts, and the two texts it
prints. What a tool does is a reply, and the replies are given in the order in which tools are
started.

* `Run`: an action on the machine that gives a result or ends in a fault.
* `start`: starts a tool.
* `perform`: runs a stage, and fails if its tool does.
-/

namespace HotPath

open FileSystem

/-- A change that a tool makes to the files, by the names from the top directory. -/
inductive Change where
  | put (names : List String) (entry : Entry)
  | remove (names : List String)
  deriving Repr, DecidableEq

def Change.make : Change → Edit Unit
  | .put names entry => .put names entry
  | .remove names => .remove names

inductive Outcome where
  | finished (code : Int) (output : Bytes)
  | notFound
  | notExecutable
  /-- The user stops the program while the tool runs. -/
  | interrupted
  /-- The system cannot execute the tool. -/
  | badExecutable
  /-- The tool has failed at a file. -/
  | broken (reason : FileError)
  deriving Repr, DecidableEq

/-- The end of a tool that fails at a file. Only the cause is looked at: a missing file counts as a
missing tool, and a refused one as a tool that may not be executed. -/
def Outcome.ofFileError (e : FileError) : Outcome :=
  match e.cause with
  | .notFound => .notFound
  | .permissionDenied => .notExecutable
  | _ => .broken e

/-- What a tool does when it is started: changes to the files, then its end. -/
structure Reply where
  changes : List Change
  outcome : Outcome
  deriving Repr, DecidableEq

/-- The reply of a tool that succeeds at once. -/
def Reply.silent : Reply := ⟨[], .finished 0 []⟩

structure Call where
  command : List String
  directory : Path
  input : Option Bytes
  captured : Bool
  deriving Repr, DecidableEq

structure Machine where
  view : View
  environment : Environment
  process : Nat
  /-- Whether the file of a path cannot be deleted. -/
  refused : Path → Bool
  /-- The replies of the tools that are started next. -/
  replies : List Reply
  /-- The tools that have been started. -/
  calls : List Call
  /-- The text on standard output. -/
  out : String
  /-- The text on standard error. -/
  err : String
  /-- The text that stood on standard error when each of the tools was started. -/
  shown : List String := []

/-- What ends an action. -/
inductive Fault where
  | stage (failure : Failure)
  | file (error : FileError)
  | nulCharacter
  | pattern (error : Glob.PatternError)
  | sourceDir (error : SourceDirError)
  | report (error : Report.SummaryError)
  /-- There is no configuration, and not by a mistake in the use of the command. -/
  | load (error : LoadError)

def Fault.message : Fault → String
  | stage failure => failure.message
  | file error => error.message
  | nulCharacter => nulMessage
  | pattern error => error.message
  | sourceDir error => error.message
  | report error => error.message
  | load error => error.message

/-- An action on the machine. The machine keeps what happened before a fault. -/
abbrev Run (α : Type) := ExceptT Fault (StateM Machine) α

namespace Run

/-- The result, or the fault for its error. -/
def lift {ε α : Type} (fault : ε → Fault) : Except ε α → Run α
  | .ok a => pure a
  | .error e => throw (fault e)

def printLine (s : String) : Run Unit := modify fun m => { m with out := m.out ++ s ++ "\n" }

/-- Puts a line on standard error. -/
def reportLine (s : String) : Run Unit := modify fun m => { m with err := m.err ++ s ++ "\n" }

def edit (changes : List Change) : Run (Except FileError Unit) := do
  let m ← get
  let (ending, view) := (changes.forM Change.make).run m.view
  set { m with view }
  return ending

/-- Starts a tool. It stops at the first change that it cannot make. -/
def start (call : Call) : Run Outcome := do
  let m ← get
  let reply := m.replies.headD .silent
  set { m with
    replies := m.replies.tail
    calls := m.calls ++ [call]
    shown := m.shown ++ [m.err] }
  match ← edit reply.changes with
  | .ok () => return reply.outcome
  | .error e => return .ofFileError e

/-- The failure of a stage whose command has not come to an end of its own. -/
def brokenOff (s : Stage) (kind : FailureKind) (command : List String) (code : Int)
    (detail : String) (h : code ≠ 0) : Fault :=
  .stage ⟨kind, s.name, command, code, some detail, h⟩

/-- Runs a stage with some input and gives the output that is kept. The command is shown first. -/
def perform (c : Config) (s : Stage) (outputs : List Path) (input : Option Bytes) : Run Bytes := do
  let command := s.command c outputs
  let tool := command.headD ""
  reportLine ("+ " ++ Shell.join command)
  match ← start ⟨command, c.workDir, input, s.isCaptured⟩ with
  | .notFound =>
    throw (brokenOff s s.kind command codeNotFound (tool ++ " not found") (by decide))
  | .notExecutable =>
    throw (brokenOff s s.kind command codeNotExecutable (tool ++ " is not executable") (by decide))
  | .interrupted =>
    throw (brokenOff s .profiler command codeInterrupted "interrupted" (by decide))
  | .badExecutable => throw (.file ⟨.badExecutable, tool⟩)
  | .broken reason => throw (.file reason)
  | .finished code output =>
    if h : code ≠ 0 then throw (.stage ⟨s.kind, s.name, command, code, none, h⟩)
    else return if s.isCaptured then output else []

def writeFile (p : Path) (content : Bytes) : Run Unit := do
  if hasNul p then throw .nulCharacter
  let m ← get
  match m.view.write p content with
  | .ok view => set { m with view }
  | .error cause => throw (.file ⟨cause, p.text⟩)

def deleteFile (p : Path) : Run Unit := do
  let m ← get
  if m.refused p then throw (.file ⟨.permissionDenied, p.text⟩)
  match m.view.unlink p with
  | .ok view => set { m with view }
  | .error cause => throw (.file ⟨cause, p.text⟩)

end Run

end HotPath
