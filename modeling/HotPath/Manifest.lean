import HotPath.FileSystem.Walk
import HotPath.Toml.Document

/-!
# The build manifest

The manifest of a project names the program that a release build makes.

* `defaultBinary`: the name of that program. Without a manifest, or without a name in it, the
  program is named as its directory is.
-/

namespace HotPath

open FileSystem

def manifestName : String := "Cargo.toml"

inductive ManifestError where
  /-- The path of the file is too long. -/
  | file (reason : FileError)
  | notText (stretch : Text.Utf8.Malformed)
  | notADocument (reason : Toml.DocumentError)
  /-- The package is not a table but a value of another kind. -/
  | packageNotATable (kind : String)
  deriving Repr, DecidableEq

def ManifestError.message : ManifestError → String
  | .file reason => reason.message
  | .notText stretch => stretch.message
  | .notADocument reason => reason.message
  | .packageNotATable kind => Text.quote kind ++ " object has no attribute 'get'"

/-- The kind of a value as messages name it. -/
def Toml.Value.kind : Toml.Value → String
  | .string _ => "str"
  | .integer _ => "int"
  | .float _ => "float"
  | .boolean _ => "bool"
  | .date _ => "datetime.date"
  | .dateTime _ => "datetime.datetime"
  | .time _ => "datetime.time"
  | .array _ => "list"
  | .table _ => "dict"

/-- The name in the table of the package, if it is a text and not empty. -/
def packageName? (package : Toml.Table) : Option String :=
  match package.lookup "name" with
  | some (.string name) => if name = "" then none else some name
  | _ => none

def manifestPackage? (content : Bytes) : Except ManifestError (Option String) := do
  let text ← (Text.Utf8.decode content).mapError .notText
  let root ← (Toml.read text).mapError .notADocument
  match root.lookup "package" with
  | none => return none
  | some (.table package) => return packageName? package
  | some v => throw (.packageNotATable v.kind)

/-- The name of the program of the project at `workDir`. -/
def defaultBinary (v : View) (workDir : Path) : Except ManifestError String := do
  match ← (v.read? (workDir.child manifestName)).mapError .file with
  | none => return workDir.name
  | some content => return (← manifestPackage? content).getD workDir.name

end HotPath
