import HotPath.FileSystem.Walk

/-!
# Searching for executables

A tool named with a slash is looked up as it is, seen from the working directory; any other name is
looked up in the directories of the search path, in turn. It has to be an executable regular file.

* `View.findsExecutable`: whether the search succeeds.
-/

namespace HotPath.FileSystem

/-- The directories of a search path, which stand between colons. -/
def searchPlaces (searchPath : String) : List String :=
  (searchPath.toList.splitOn ':').map String.ofList

namespace View

/-- What a text leads to; a slash at its end asks for a directory. -/
def statText (v : View) (text : String) : Except Cause Entry := do
  if maxPathBytes < text.utf8ByteSize then throw .nameTooLong
  let start := if startsAtTop text then ⟨[], 0⟩ else v.cwd
  match v.tree.at? (← walk v.tree .find maxLinks start (stepsOf text)) with
  | some e => .ok e
  | none => .error .notFound

def isExecutable (v : View) (text : String) : Bool :=
  if text = "" || text.toList.contains '\x00' then false
  else match v.statText text with
    | .ok (.file _ executable) => executable
    | _ => false

/-- Whether `tool` is an executable file, itself or in a directory of the search path. An empty
search path finds nothing. -/
def findsExecutable (v : View) (searchPath tool : String) : Bool :=
  if tool.toList.contains '/' then v.isExecutable tool
  else if searchPath = "" then false
  else (searchPlaces searchPath).any fun d => v.isExecutable (entryText d tool)

end View

end HotPath.FileSystem
