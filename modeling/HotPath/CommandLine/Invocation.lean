import HotPath.CommandLine.Integer
import HotPath.CommandLine.Usage
import HotPath.CommandLine.Word

/-!
# Invocations

A command line calls for one command with its flags. Words behind a word `--` are never flags; no
command takes words other than its flags, so what is left over is an error.

* `Invocation.parse`: what a command line calls for, or why the program stops right there.
-/

namespace HotPath.CommandLine

/-- The word behind which there are no flags. -/
def endOfFlags : String := "--"

/-- What a command line calls for. -/
structure Invocation where
  command : Command
  request : Request := {}
  format : Setting String := .value Report.Format.text.name

/-- Why the program stops before a command is run. -/
inductive Stop where
  | help (scope : Scope)
  | error (scope : Scope) (reason : UsageError)
  deriving Repr, DecidableEq

namespace Stop

def status : Stop → Int
  | help _ => 0
  | error _ _ => 2

def out : Stop → String
  | help scope => CommandLine.help scope
  | error _ _ => ""

def err : Stop → String
  | help _ => ""
  | error scope reason =>
    usage scope ++ scopeName scope ++ ": error: " ++ reason.message ++ "\n"

end Stop

namespace Invocation

/-- The text of a value as a setting. The word `--` is never a value: it leaves a flag without one.
So do early releases of the reader of command lines that is followed here; later patch releases keep
the word as a value. -/
def settingOf (value : String) : Setting String :=
  if value = endOfFlags then .empty else .value value

def set (i : Invocation) (f : Flag) (value : String) : Except UsageError Invocation :=
  let text := settingOf value
  let ask (r : Request) : Except UsageError Invocation := .ok { i with request := r }
  let r := i.request
  match f with
  | .help => .error (.ignoredValue .help value)
  | .workDir => ask { r with workDir := text }
  | .binary => ask { r with binary := text }
  | .tool role => ask { r with tools := fun t => if t = role then text else r.tools t }
  | .samplingArgs => ask { r with samplingArgs := text }
  | .rendererArgs => ask { r with rendererArgs := text }
  | .instrumentationArgs => ask { r with instrumentationArgs := text }
  | .annotateArgs => ask { r with annotateArgs := text }
  | .sourceDir => ask { r with sourceDir := text }
  | .topCount =>
    match text, integer? value with
    | .value _, none => .error (.invalidInteger f value)
    | .value _, some n => ask { r with topCount := .value n }
    | _, _ => ask { r with topCount := .empty }
  | .format =>
    let names := Report.Format.all.map (·.name)
    if text = .empty || names.contains value then .ok { i with format := text }
    else .error (.invalidChoice f value names)

/-- The words of a line in front of the word `--`, and that word with everything behind it. -/
def cutAtEnd (line : List String) : List String × List String :=
  let front := line.takeWhile (· ≠ endOfFlags)
  (front, line.drop front.length)

/-- How a request for help goes on that has something behind its letter: the letter can be repeated,
and nothing else can stand there. -/
def helpOr (scope : Scope) (behind : String) : Stop :=
  let other := behind.toList.dropWhile (· = 'h')
  if behind ≠ "" && other = [] then .help scope
  else .error scope (.ignoredValue .help (.ofList other))

/-- Reads the words of a command in order. The answer holds the words that are left over. -/
def readWords (i : Invocation) : List Word → Except Stop (Invocation × List String)
  | [] => .ok (i, [])
  | .plain text :: rest => (readWords i rest).map fun r => (r.1, text :: r.2)
  | .unknown text :: rest => (readWords i rest).map fun r => (r.1, text :: r.2)
  | .shortHelp behind :: _ => .error (helpOr (some i.command) behind)
  | .flag .help none :: _ => .error (.help (some i.command))
  | .flag f (some value) :: rest => do
    readWords (← (i.set f value).mapError (.error (some i.command))) rest
  | .flag f none :: .plain value :: rest => do
    readWords (← (i.set f value).mapError (.error (some i.command))) rest
  | .flag f none :: _ => .error (.error (some i.command) (.missingValue f))

/-- Reads what stands behind the name of a command. All words are told apart before any is read. -/
def readCommand (c : Command) (line : List String) : Except Stop (Invocation × List String) := do
  let (front, behind) := cutAtEnd line
  let words ← (front.mapM (Word.read c.flags)).mapError (.error (some c))
  let (i, left) ← readWords { command := c } words
  return (i, left ++ behind)

/-- Reads a line. The first plain word is the name of the command, also behind the word `--`, which
is then taken for that name. -/
def readLine : List String → Except Stop (Invocation × List String)
  | [] => .error (.error none .missingCommand)
  | text :: rest =>
    if text = endOfFlags then
      .error (.error none (if rest = [] then .missingCommand else .unknownCommand text))
    else
      match Word.read (scopeFlags none) text with
      | .error reason => .error (.error none reason)
      | .ok (.plain name) =>
        match Command.ofName? name with
        | some c => readCommand c rest
        | none => .error (.error none (.unknownCommand name))
      | .ok (.unknown text) => (readLine rest).map fun r => (r.1, text :: r.2)
      | .ok (.shortHelp behind) => .error (helpOr none behind)
      | .ok (.flag f (some value)) => .error (.error none (.ignoredValue f value))
      | .ok (.flag _ none) => .error (.help none)

def parse (line : List String) : Except Stop Invocation := do
  let (i, left) ← readLine line
  if left = [] then return i else throw (.error none (.leftOver left))

end Invocation

end HotPath.CommandLine
