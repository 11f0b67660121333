import HotPath.FileSystem.Walk

/-!
# Resolving paths

Resolving a path replaces every link on it by its target and removes `..`, also where nothing
exists. A relative path stays relative until a link leads to the top, and is completed by the
working directory at the end.

Each link is replaced once: its resolved form is known from then on. A link that is met while it is
being replaced ends the work. It stays as it is, and the text behind it, and then the text behind
every link that is being replaced, is joined to it unchanged, so that an absolute text among them
takes the place of all before it. If the path still runs in circles then, resolving fails.

* `View.resolve`: the resolved path, absolute and without `.` and `..`.
-/

namespace HotPath.FileSystem

inductive ResolveError where
  /-- A name that is looked at, or is left in the end, holds the character that no file name can
  hold. -/
  | nulCharacter
  /-- The path is relative, and the working directory has been removed. -/
  | noWorkingDirectory
  | linkLoop (path : String)
  deriving Repr, DecidableEq

/-- The path one directory up, without looking at links. -/
def climb (p : Path) : Path :=
  match p.names.getLast? with
  | none => if p.isAbsolute then p else ⟨p.root, [".."]⟩
  | some name => if name = ".." then p.child ".." else ⟨p.root, p.names.dropLast⟩

/-- The names after each `..` has taken away the name before it. -/
def collapse (names : List String) : List String :=
  names.foldl (fun up name => if name = ".." then up.dropLast else up ++ [name]) []

def piecesOf (text : String) : List String := (Path.pieces text.toList).map String.ofList

/-- The path `p` with a text joined to it that is given by its pieces. -/
def joinPieces (p : Path) (pieces : List String) : Path := p.join ("/".intercalate pieces)

/-- A link that is being replaced, and the pieces of text behind it. -/
structure OpenLink where
  link : Path
  rest : List String
  deriving Repr, DecidableEq

/-- How many pieces are left behind the links that are being replaced, each link counted as one. -/
def pending : List OpenLink → Nat
  | [] => 0
  | o :: stack => o.rest.length + 1 + pending stack

/-- A link that stays as it is, with the text behind it and behind every link that is being
replaced. -/
def stuckAt (link : Path) (rest : List String) (stack : List OpenLink) : Path :=
  stack.foldl (fun p o => joinPieces p o.rest) (joinPieces link rest)

namespace View

/-- The target of the link that a path leads to, if it leads to one. -/
def linkTarget? (v : View) (p : Path) : Option String :=
  match v.stat .findLink p with
  | .ok (.link target) => some target
  | _ => none

/-- Replaces the links on the way from `here` along the pieces `rest`, and then along what is left
behind the links on the stack. A link that is `known` has a resolved form or is on the stack; at
most `budget` more are replaced. -/
def expand (v : View) (budget : Nat) (known : List (Path × Option Path)) (stack : List OpenLink)
    (here : Path) (rest : List String) : Except ResolveError Path :=
  match rest with
  | [] =>
    match stack with
    | [] => .ok here
    | ⟨link, rest⟩ :: stack => expand v budget ((link, some here) :: known) stack here rest
  | name :: rest =>
    if name = "" || name = "." then expand v budget known stack here rest
    else if name = ".." then expand v budget known stack (climb here) rest
    else
      let next := here.child name
      if hasNul next then .error .nulCharacter
      else match v.linkTarget? next with
        | none => expand v budget known stack next rest
        | some target =>
          match known.lookup next with
          | some (some resolved) => expand v budget known stack resolved rest
          | some none => .ok (stuckAt next rest stack)
          | none =>
            match budget with
            | 0 => .ok (stuckAt next rest stack)
            | budget + 1 =>
              expand v budget ((next, none) :: known) (⟨next, rest⟩ :: stack)
                (if startsAtTop target then ⟨.slash, []⟩ else here) (piecesOf target)
termination_by (budget, pending stack + rest.length)
decreasing_by
  all_goals simp_wf
  all_goals simp only [Prod.lex_def, pending, true_and]
  all_goals omega

/-- How many links are replaced at most: each one under each of its spellings, which are the
absolute one and one for every number of leading `..` that fits into a path. -/
def expandLimit (v : View) : Nat := v.tree.linkCount * maxPathBytes

/-- The resolved form of a path, whether or not something is there. -/
def resolve (v : View) (p : Path) : Except ResolveError Path := do
  let top : Path := ⟨if p.isAbsolute then .slash else .relative, []⟩
  let expanded ← v.expand v.expandLimit [] [] top p.names
  let full ← match expanded.isAbsolute, v.workingDirectory? with
    | true, _ => pure expanded
    | false, some cwd => pure (cwd.append expanded)
    | false, none => throw .noWorkingDirectory
  let resolved : Path := ⟨full.root, collapse full.names⟩
  if hasNul resolved then throw .nulCharacter
  match v.stat .find resolved with
  | .error .tooManyLinks => throw (.linkLoop resolved.text)
  | _ => return resolved

end View

end HotPath.FileSystem
