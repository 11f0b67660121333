import HotPath.CommandLine.Program

/-!
# The command

Runs the program on the files below the working directory. They are read before the run, and what
has changed is written back after it. No tool is started: every start of a tool ends as if the tool
were missing, so the commands that need none do their whole work and the others end at their first
stage.
-/

namespace HotPath

open FileSystem

/-- The entries below the address `a`, which stands for the directory `directory` of the system. A
link counts as what it leads to, and what cannot be read is left out. -/
partial def readEntries (a : Address) (directory : String) : IO (List (Address × Entry)) := do
  let found ← try (← IO.FS.realPath directory).readDir catch _ => pure #[]
  let mut entries := []
  for e in found do
    let here := a ++ [e.fileName]
    try
      match (← e.path.metadata).type with
      | .dir => entries := entries ++ (here, .directory) :: (← readEntries here e.path.toString)
      | _ =>
        let content ← IO.FS.readBinFile e.path
        entries := entries ++ [(here, .file content.toList true)]
    catch _ => pure ()
  return entries

def addressOf (text : String) : Address := Path.namesOf text.toList

/-- The files of a directory of the search path, each as an executable file without content. -/
def readTools (directory : String) : IO (List (Address × Entry)) := do
  let found ← try (← IO.FS.realPath directory).readDir catch _ => pure #[]
  return found.toList.map fun e => (addressOf directory ++ [e.fileName], .file [] true)

/-- The entries at the address `a` and above it: directories. -/
def directoriesAt (a : Address) : List (Address × Entry) :=
  (List.range a.length).map fun n => (a.take (n + 1), .directory)

def systemName (a : Address) : String := (Path.mk .slash a).text

/-- Brings the system from the files of one tree to those of another. -/
def writeChanges (before after : Tree) : IO Unit := do
  for (a, e) in before.entries do
    if after.get? a = none && e ≠ .directory then IO.FS.removeFile (systemName a)
  for (a, e) in after.entries do
    match e with
    | .file content _ =>
      if before.get? a ≠ some e then
        IO.FS.writeBinFile (systemName a) ⟨content.toArray⟩
    | _ => pure ()

def variableNames : List String :=
  [homeVariable, searchVariable, binaryVariable] ++ ToolRole.all.map (·.variableName)

/-- The greatest number of tools that a command starts. -/
def mostTools : Nat := 5

/-- The machine that the system is, with no tool to be found. -/
def readMachine : IO Machine := do
  let cwd := addressOf (← IO.currentDir).toString
  let values ← variableNames.mapM fun n => return (← IO.getEnv n).map (n, ·)
  let environment : Environment := ⟨values.filterMap id, [], none⟩
  let places := searchPlaces environment.searchPath
  let tools := (← places.mapM readTools).flatten
  let above := (places.map addressOf ++ [cwd]).flatMap directoriesAt
  return {
    view := .ofEntries (above ++ tools ++ (← readEntries cwd (systemName cwd))) cwd
    environment
    process := 0
    refused := fun _ => false
    replies := List.replicate mostTools ⟨[], .notFound⟩
    calls := []
    out := ""
    err := "" }

end HotPath

def main (line : List String) : IO UInt32 := do
  let before ← HotPath.readMachine
  let (ending, after) := (HotPath.Run.program line).run before
  HotPath.writeChanges before.view.tree after.view.tree
  IO.print after.out
  IO.eprint after.err
  match ending with
  | .ok ending => return .ofNat (ending.status.toNat % 256)
  | .error fault => do
    IO.eprintln fault.message
    return 1
