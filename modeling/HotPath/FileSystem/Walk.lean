import HotPath.Path
import HotPath.FileSystem.Tree
import HotPath.FileSystem.Error

/-!
# Walking to an entry

A path is walked step by step from a directory. A link met on the way is replaced by its target; at
most forty links are followed, so a walk always ends. Names and paths have a greatest length.

A directory can be removed while a program works in it. Nothing is found in it any more, but a walk
still climbs out of it.

* `walk`: the place that steps lead to. The last step may lead to an address where nothing is yet.
* `View.locate`: the place that a path leads to.
* `View.isFile`, `View.isDirectory`, `View.isPresent`: what is found there, links followed.
-/

namespace HotPath.FileSystem

def maxLinks : Nat := 40

def maxPathBytes : Nat := 4095

/-- The steps of a text: its pieces between slashes, where a slash at the end asks for a directory
as an empty last step. -/
def stepsOf (text : String) : List String :=
  let cs := text.toList
  let steps := ((Path.pieces cs).filter (· ≠ [])).map String.ofList
  if cs.getLast? = some '/' then steps ++ [""] else steps

def startsAtTop (text : String) : Bool := text.toList.head? = some '/'

inductive Purpose where
  /-- To find what is there; a link at the end is followed. -/
  | find
  /-- To find the entry itself; a link at the end is not followed. -/
  | findLink
  /-- To make a file; a link at the end is followed, and a directory cannot be asked for. -/
  | make
  deriving Repr, DecidableEq

/-- A place in a tree: an address or, if `lost` is not zero, a directory so many levels below it
that has been removed. -/
structure Place where
  address : Address
  lost : Nat := 0
  deriving Repr, DecidableEq

namespace Place

/-- The place one level up; the top directory is above itself. -/
def up (p : Place) : Place :=
  if p.lost = 0 then ⟨p.address.dropLast, 0⟩ else ⟨p.address, p.lost - 1⟩

/-- The place after the entry at `gone` has been removed with everything below it. -/
def afterRemoval (p : Place) (gone : Address) : Place :=
  if gone.isPrefixOf p.address then
    ⟨gone.dropLast, p.lost + (p.address.length - gone.length) + 1⟩
  else p

end Place

def Tree.at? (t : Tree) (p : Place) : Option Entry :=
  if p.lost = 0 then t.get? p.address else some .directory

/-- Walks from the place `here` along `steps`, following at most `links` links. -/
def walk (t : Tree) (purpose : Purpose) (links : Nat) (here : Place) (steps : List String) :
    Except Cause Place :=
  match steps with
  | [] => .ok here
  | step :: rest =>
    match t.at? here with
    | none => .error .notFound
    | some (.file _ _) | some (.link _) => .error .notADirectory
    | some .directory =>
      if step = "." || step = "" then walk t purpose links here rest
      else if step = ".." then walk t purpose links here.up rest
      else if purpose = .make && rest = [""] then .error .isADirectory
      else if here.lost ≠ 0 then .error .notFound
      else if maxNameBytes < step.utf8ByteSize then .error .nameTooLong
      else
        let next := here.address ++ [step]
        match t.get? next with
        | none => if rest = [] then .ok ⟨next, 0⟩ else .error .notFound
        | some (.link target) =>
          if rest = [] && purpose = .findLink then .ok ⟨next, 0⟩
          else match links with
            | 0 => .error .tooManyLinks
            | links + 1 =>
              walk t purpose links (if startsAtTop target then ⟨[], 0⟩ else here)
                (stepsOf target ++ rest)
        | some (.file _ _) | some .directory => walk t purpose links ⟨next, 0⟩ rest
termination_by (links, steps.length)

/-- A place to look from: the tree, and the working directory. Every entry stands in a directory,
under a name that an entry can have; so does the working directory, or did before it was removed. -/
@[ext]
structure View where
  tree : Tree
  cwd : Place
  rooted : tree.Rooted
  named : tree.Named
  inDirectory : tree.get? cwd.address = some .directory
  deriving Repr, DecidableEq

/-- Whether a path holds the character that no file name can hold. -/
def hasNul (p : Path) : Bool := p.names.any fun n => n.toList.contains '\x00'

namespace View

/-- Nothing but the top directory. -/
def empty : View := ⟨.empty, ⟨[], 0⟩, nofun, nofun, rfl⟩

/-- The same tree, seen from the working directory `cwd` if that is one. -/
def workingAt (v : View) (cwd : Place) : View :=
  if h : v.tree.get? cwd.address = some .directory then { v with cwd, inDirectory := h } else v

/-- The path of the working directory, unless it has been removed. -/
def workingDirectory? (v : View) : Option Path :=
  if v.cwd.lost = 0 then some ⟨.slash, v.cwd.address⟩ else none

def start (v : View) (p : Path) : Place := if p.isAbsolute then ⟨[], 0⟩ else v.cwd

def locate (v : View) (purpose : Purpose) (p : Path) : Except Cause Place :=
  if maxPathBytes < p.text.utf8ByteSize then .error .nameTooLong
  else walk v.tree purpose maxLinks (v.start p) p.names

/-- What a path leads to. -/
def stat (v : View) (purpose : Purpose) (p : Path) : Except Cause Entry := do
  match v.tree.at? (← v.locate purpose p) with
  | some e => .ok e
  | none => .error .notFound

/-- What a path leads to, links followed, and nothing if it leads nowhere. A path that is too long
leads neither anywhere nor nowhere. -/
def find (v : View) (p : Path) : Except FileError (Option Entry) :=
  if hasNul p then .ok none
  else match v.stat .find p with
    | .ok e => .ok (some e)
    | .error .nameTooLong => .error ⟨.nameTooLong, p.text⟩
    | .error _ => .ok none

def read? (v : View) (p : Path) : Except FileError (Option Bytes) :=
  (v.find p).map fun
    | some (.file content _) => some content
    | _ => none

def isFile (v : View) (p : Path) : Except FileError Bool := (v.read? p).map (·.isSome)

def isDirectory (v : View) (p : Path) : Except FileError Bool :=
  (v.find p).map fun e => e = some .directory

def isPresent (v : View) (p : Path) : Except FileError Bool := (v.find p).map (·.isSome)

/-- The names in the directory that a path leads to, and what they stand for. -/
def list (v : View) (p : Path) : Except FileError (List (String × Entry)) :=
  match v.locate .find p with
  | .ok ⟨a, 0⟩ => .ok (v.tree.members a)
  | .ok _ => .ok []
  | .error cause => .error ⟨cause, p.text⟩

/-- The directories strictly below the one that a path leads to, reached without links. -/
def directoriesBelow (v : View) (p : Path) : List (List String) :=
  match v.locate .find p with
  | .ok ⟨a, 0⟩ => v.tree.directoriesBelow a
  | _ => []

end View

end HotPath.FileSystem
