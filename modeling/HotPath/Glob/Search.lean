import HotPath.Glob.Pattern
import HotPath.FileSystem.Walk

/-!
# Searching a file tree by a pattern

A path pattern is a relative path whose names are name patterns. The name `**` stands for any number
of directories, reached without links; a pattern that ends in a slash asks for directories.

* `PathPattern.parse`: which texts are patterns.
* `search`: the paths that a pattern leads to from a directory, without repetitions. A step with
  wildcards lists the directory that it is taken in. A step that has to go on, or that goes through
  all directories, also looks at the end of every link there. So a path that is too long can end a
  search that would not have found it.
-/

namespace HotPath.Glob

open FileSystem

inductive PatternError where
  | empty
  /-- A path from a root. -/
  | absolute
  /-- A text without names, such as `.`. -/
  | nameless
  /-- A text without names that asks for a directory, such as `./`. -/
  | bareDirectory
  /-- A name with `**` in it that is longer than that. -/
  | strayDoubleStar
  deriving Repr, DecidableEq

def PatternError.message : PatternError → String
  | .empty => "Unacceptable pattern: ''"
  | .absolute => "Non-relative patterns are unsupported"
  | .nameless => "tuple index out of range"
  | .bareDirectory => "'_TerminatingSelector' object has no attribute 'select_from'"
  | .strayDoubleStar => "Invalid pattern: '**' can only be an entire path component"

inductive Step where
  /-- Exactly this name. -/
  | exactly (name : String)
  /-- All names that the pieces cover. -/
  | covering (pieces : List Piece)
  /-- Any number of directories. -/
  | descend
  deriving Repr, DecidableEq

/-- A path pattern: its steps, and whether it asks for directories. -/
structure PathPattern where
  steps : List Step
  directories : Bool
  deriving Repr, DecidableEq

def hasDoubleStar : List Char → Bool
  | '*' :: '*' :: _ => true
  | _ :: rest => hasDoubleStar rest
  | [] => false

def stepOf (name : String) : Except PatternError Step :=
  let cs := name.toList
  if cs = ['*', '*'] then .ok .descend
  else if hasDoubleStar cs then .error .strayDoubleStar
  else if cs.any (fun c => c = '*' || c = '?' || c = '[') then .ok (.covering (piecesOf cs))
  else .ok (.exactly name)

def PathPattern.parse (text : String) : Except PatternError PathPattern :=
  let p := Path.parse text
  let directories := text.toList.getLast? = some '/'
  if text = "" then .error .empty
  else if p.isAbsolute then .error .absolute
  else if p.names = [] then .error (if directories then .bareDirectory else .nameless)
  else (p.names.mapM stepOf).map (⟨·, directories⟩)

/-- Whether a name in the directory at `p` leads to a directory, by what it stands for. Only a link
has to be followed for that. -/
def leadsOn (v : View) (p : Path) (name : String) : Entry → Except FileError Bool
  | .directory => .ok true
  | .file _ _ => .ok false
  | .link _ =>
    (v.isDirectory (p.child name)).mapError fun e => { e with path := entryText p.text name }

/-- The paths that steps lead to from `p`, of those that `keep` admits. A step that is not the last
one, or whose pattern asks for directories, leads to directories only. Below `**` the ends of links
are looked at, although links are not gone through. So do early releases of the search that is
followed here; later patch releases leave them alone. -/
def follow (v : View) (keep : Path → Except FileError Bool) (directories : Bool) :
    List Step → Path → Except FileError (List Path)
  | [], p => return if ← keep p then [p] else []
  | step :: rest, p => do
    let last := rest.isEmpty && !directories
    match step with
    | .exactly name =>
      let q := p.child name
      if ← if last then v.isPresent q else v.isDirectory q then follow v keep directories rest q
      else return []
    | .covering pieces =>
      let found ← (← v.list p).mapM fun (name, entry) => do
        let admitted ← if last then pure true else leadsOn v p name entry
        if admitted && matchesPieces pieces name.toList then
          follow v keep directories rest (p.child name)
        else return []
      return found.flatten
    | .descend =>
      let below := (v.directoriesBelow p).map fun names => ⟨p.root, p.names ++ names⟩
      let found ← (p :: below.mergeSort Path.le).mapM fun q => do
        let here ← follow v keep directories rest q
        (← v.list q).forM fun (name, entry) => discard (leadsOn v q name entry)
        return here
      return found.flatten.eraseDups

/-- The paths that a pattern leads to from the directory at `p`, of those that `keep` admits; from
anything else it leads nowhere. The search comes to one path after the other, and the first failure
ends it. -/
def search (v : View) (keep : Path → Except FileError Bool) (p : Path) (pattern : PathPattern) :
    Except FileError (List Path) := do
  if ← v.isDirectory p then follow v keep pattern.directories pattern.steps p else return []

end HotPath.Glob
