import HotPath.Text.Quoted

/-!
# File errors

An operation on files fails for a cause and at a path. The text of an error names both.

* `Cause.message`: the number and the wording of the cause.
* `FileError.message`: these, then the quoted path.
-/

namespace HotPath.FileSystem

inductive Cause where
  | notFound
  | permissionDenied
  | alreadyThere
  | notADirectory
  | isADirectory
  | nameTooLong
  | tooManyLinks
  | badExecutable
  deriving Repr, DecidableEq

def Cause.number : Cause → Nat
  | .notFound => 2
  | .badExecutable => 8
  | .permissionDenied => 13
  | .alreadyThere => 17
  | .notADirectory => 20
  | .isADirectory => 21
  | .nameTooLong => 36
  | .tooManyLinks => 40

def Cause.wording : Cause → String
  | .notFound => "No such file or directory"
  | .badExecutable => "Exec format error"
  | .permissionDenied => "Permission denied"
  | .alreadyThere => "File exists"
  | .notADirectory => "Not a directory"
  | .isADirectory => "Is a directory"
  | .nameTooLong => "File name too long"
  | .tooManyLinks => "Too many levels of symbolic links"

def Cause.message (c : Cause) : String := "[Errno " ++ toString c.number ++ "] " ++ c.wording

/-- A failed operation: its cause and the path it was asked for, as written. -/
structure FileError where
  cause : Cause
  path : String
  deriving Repr, DecidableEq

def FileError.message (e : FileError) : String := e.cause.message ++ ": " ++ Text.quote e.path

end HotPath.FileSystem
