import HotPath.Machine

/-!
# Outputs of instrumented runs

An instrumented run leaves files behind in the work directory. They are found by a pattern, and
stale ones are deleted in order; a file that is gone by then is no obstacle.

* `outputs`: the files that a pattern finds, in the order of their paths.
* `discardOutputs`: deletes them.
-/

namespace HotPath

open FileSystem

inductive OutputsError where
  | pattern (reason : Glob.PatternError)
  /-- A path that the search comes to is too long. -/
  | file (reason : FileError)
  deriving Repr, DecidableEq

def OutputsError.message : OutputsError → String
  | .pattern reason => reason.message
  | .file reason => reason.message

def OutputsError.fault : OutputsError → Fault
  | .pattern reason => .pattern reason
  | .file reason => .file reason

/-- The files that a path pattern leads to from a directory, in order. -/
def filesFound (v : View) (workDir : Path) (pattern : Glob.PathPattern) :
    Except FileError (List Path) :=
  (Glob.search v v.isFile workDir pattern).map (·.mergeSort Path.le)

/-- The files that a pattern finds below a directory, in order. -/
def outputs (v : View) (workDir : Path) (pattern : String) : Except OutputsError (List Path) := do
  let pattern ← (Glob.PathPattern.parse pattern).mapError .pattern
  (filesFound v workDir pattern).mapError .file

namespace Run

def findOutputs (workDir : Path) (pattern : String) : Run (List Path) := do
  lift OutputsError.fault (outputs (← get).view workDir pattern)

/-- Deletes a file unless it is gone. -/
def discard (p : Path) : Run Unit :=
  tryCatch (deleteFile p) fun fault =>
    match fault with
    | .file ⟨.notFound, _⟩ => pure ()
    | fault => throw fault

/-- Deletes the files that a pattern finds, and gives their paths. -/
def discardOutputs (workDir : Path) (pattern : String) : Run (List Path) := do
  let found ← findOutputs workDir pattern
  found.forM discard
  return found

end Run

end HotPath
