import HotPath.Path
import HotPath.Text.Blank
import HotPath.Text.Quoted

/-!
# The source directory

The directory of a project's sources, as seen from the project. Blanks around it, slashes at its
ends and names that mean nothing are ignored, so `src`, `./src`, `src/` and `/src` are the same
directory.

* `plainSourceDir`: the directory written without what is ignored.
* `locationPrefixes`: how the location of a source file can start.
-/

namespace HotPath

inductive SourceDirError where
  | nameless (text : String)
  deriving Repr, DecidableEq

def SourceDirError.message : SourceDirError → String
  | .nameless text => "source_dir must name a directory (got " ++ Text.quote text ++ ")"

/-- A text without the slashes at its ends. -/
def trimSlashes (s : List Char) : List Char :=
  ((s.dropWhile (· = '/')).reverse.dropWhile (· = '/')).reverse

/-- The plain form of a source directory: the text of its path without the slashes at the ends. The
path that leads nowhere and the top directory have none. -/
def plainSourceDir (text : String) : Except SourceDirError String :=
  let path := Path.parse (.ofList (Text.trim text.toList))
  let plain := String.ofList (trimSlashes path.text.toList)
  if plain = "" || plain = "." then .error (.nameless text) else .ok plain

/-- How the location of a source file starts: at the project, there with a dot in front, or at the
top of the file system. -/
def locationPrefixes (workDir : Path) (sourceDir : String) :
    Except SourceDirError (List String) := do
  let plain ← plainSourceDir sourceDir
  return [plain ++ "/", "./" ++ plain ++ "/", (workDir.join plain).text ++ "/"]

end HotPath
