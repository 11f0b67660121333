import HotPath.Shell.Words

/-!
# Failures

A tool fails if it ends with a code other than zero, or does not start, or is interrupted. A failure
is reported with the command that failed and turned into an exit status.

* `statusOf_pos`: the exit status of a failure is never zero.
* `Failure.message`: the text of a failure.
-/

namespace HotPath

/-- The exit status for the code that a tool ends with. A tool that is killed by a signal ends with
the negated number of the signal, and its status is 128 above that number. -/
def statusOf (code : Int) : Int := if code < 0 then 128 - code else code

theorem statusOf_pos {code : Int} (h : code ≠ 0) : 0 < statusOf code := by
  simp only [statusOf]
  split <;> omega

/-- A code that is the code of no failure. -/
inductive CodeError where
  | success
  deriving Repr, DecidableEq

def CodeError.message : CodeError → String
  | .success => "exit status 0 is not a failure"

def failureStatus (code : Int) : Except CodeError Int :=
  if code = 0 then .error .success else .ok (statusOf code)

def codeNotFound : Int := 127

def codeNotExecutable : Int := 126

def codeInterrupted : Int := 130

inductive FailureKind where
  | pipeline
  | build
  | profiler
  | transform
  deriving Repr, DecidableEq

def FailureKind.name : FailureKind → String
  | .pipeline => "pipeline"
  | .build => "build_failure"
  | .profiler => "profiler_failure"
  | .transform => "transform_failure"

structure Failure where
  kind : FailureKind
  stage : String
  command : List String
  /-- The code that the stage has ended with. -/
  code : Int
  /-- What has happened, if the code does not say it. -/
  detail : Option String
  code_ne_zero : code ≠ 0
  deriving DecidableEq

namespace Failure

def status (f : Failure) : Int := statusOf f.code

/-- Why the stage has failed: the detail, or the code if there is none. -/
def reason (f : Failure) : String :=
  match f.detail with
  | none => "exit " ++ toString f.code
  | some d => if d = "" then "exit " ++ toString f.code else d

/-- What stands in front of the command in the text of a failure. -/
def headline (f : Failure) : String :=
  f.kind.name ++ ": " ++ f.stage ++ " failed (" ++ f.reason ++ "): "

def message (f : Failure) : String := f.headline ++ Shell.join f.command

end Failure

end HotPath
