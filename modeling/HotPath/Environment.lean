import HotPath.FileSystem.Resolve
import HotPath.Tool

/-!
# The environment and the work directory

A path that starts with `~` starts at a home directory: `~` alone is the home of the user, and a
name behind it is the name of an account. Where a variable is not set, the account of the user and
the system stand in for it. The work directory of a project is the resolved form of the path that is
given for it.

* `Environment.expandHome`: the path without `~`.
* `findWorkDir`: an absolute path of an existing directory.
-/

namespace HotPath

open FileSystem

/-- What a program is told by its surroundings: variables, and the home directories of accounts. -/
structure Environment where
  bindings : Variables
  accounts : Variables
  /-- The name of the account of the user, if there is one. -/
  user : Option String
  deriving Repr, DecidableEq

def homeVariable : String := "HOME"

def searchVariable : String := "PATH"

/-- A text without the slashes at its end. -/
def dropSlashes (s : String) : String := .ofList (s.toList.reverse.dropWhile (· = '/')).reverse

/-- The search path that the system has for programs that are told none. -/
def systemSearchPath : String := "/bin:/usr/bin"

namespace Environment

/-- The search path for tools. One that is set and empty stays empty. -/
def searchPath (e : Environment) : String :=
  (e.bindings.lookup searchVariable).getD systemSearchPath

/-- The home directory of an account. The account without a name is the user's, whose home is the
one that the environment names, else the one of his account. -/
def home? (e : Environment) (account : String) : Option String :=
  let home :=
    if account = "" then (e.bindings.lookup homeVariable).or (e.user.bind (e.accounts.lookup ·))
    else e.accounts.lookup account
  home.map fun h => (nonempty? (dropSlashes h)).getD "/"

end Environment

inductive WorkDirError where
  | unknownHome
  /-- The path holds the character that no file name can hold. -/
  | nulCharacter
  /-- The path is relative, and the working directory has been removed. -/
  | noWorkingDirectory
  | linkLoop (path : String)
  /-- The path is too long. -/
  | file (reason : FileError)
  | missing (path : String)
  deriving Repr, DecidableEq

/-- The text for a path that holds the character that no file name can hold. -/
def nulMessage : String := "embedded null byte"

def WorkDirError.message : WorkDirError → String
  | .unknownHome => "Could not determine home directory."
  | .nulCharacter => nulMessage
  | .noWorkingDirectory => Cause.notFound.message
  | .linkLoop path => "Symlink loop from " ++ Text.quote path
  | .file reason => reason.message
  | .missing path => "Work dir does not exist: " ++ path

def WorkDirError.ofResolve : ResolveError → WorkDirError
  | .nulCharacter => .nulCharacter
  | .noWorkingDirectory => .noWorkingDirectory
  | .linkLoop path => .linkLoop path

/-- The path with a home directory in the place of a `~` at its start. There is none without a home,
and a home directory cannot start with `~` itself. -/
def Environment.expandHome (e : Environment) (p : Path) : Except WorkDirError Path :=
  match p.isAbsolute, p.names with
  | false, name :: rest =>
    match name.toList with
    | '~' :: account =>
      if account.contains '\x00' then .error .nulCharacter
      else match e.home? (.ofList account) with
        | none => .error .unknownHome
        | some home =>
          if home.toList.head? = some '~' then .error .unknownHome
          else .ok ((Path.parse home).append ⟨.relative, rest⟩)
    | _ => .ok p
  | _, _ => .ok p

/-- The path that is asked for; without one it is the working directory. -/
def askedPath (v : View) (e : Environment) (asked : Option String) : Except WorkDirError Path :=
  match asked, v.workingDirectory? with
  | some text, _ => e.expandHome (Path.parse text)
  | none, some cwd => .ok cwd
  | none, none => .error .noWorkingDirectory

def findWorkDir (v : View) (e : Environment) (asked : Option String) :
    Except WorkDirError Path := do
  let p ← (v.resolve (← askedPath v e asked)).mapError .ofResolve
  if ← (v.isDirectory p).mapError .file then return p else throw (.missing p.text)

end HotPath
