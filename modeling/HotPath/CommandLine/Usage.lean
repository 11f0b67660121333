import HotPath.CommandLine.Flag
import HotPath.CommandLine.Layout

/-!
# Usage and help

The texts that explain the program as a whole or one of its commands.

* `usage`: how it is called.
* `help`: what it does and what its flags mean.
-/

namespace HotPath.CommandLine

/-- What is explained: one command, or the program as a whole. -/
abbrev Scope := Option Command

def scopeName : Scope → String
  | none => programName
  | some c => programName ++ " " ++ c.name

def scopeFlags : Scope → List Flag
  | none => [.help]
  | some c => c.flags

def commandChoices : String := Flag.choices (Command.all.map (·.name))

/-- Lines with a line feed behind each. -/
def unlines (lines : List String) : String := String.join (lines.map (· ++ "\n"))

def usage (s : Scope) : String :=
  let others := match s with
    | none => [commandChoices, "..."]
    | some _ => []
  unlines (usageLines ("usage: " ++ scopeName s) ((scopeFlags s).map (·.usageItem)) others)

def flagLines (flags : List Flag) : List String :=
  flags.flatMap fun f => entryLines 2 f.helpItem f.description

def helpSections (s : Scope) : List (List String) :=
  let (tools, general) := (scopeFlags s).partition (·.isTool)
  let options := "options:" :: flagLines general
  match s with
  | none =>
    let commands := Command.all.flatMap fun c => entryLines 4 c.name c.help
    [paragraph 0 lineWidth programHelp,
      "positional arguments:" :: entryLines 2 commandChoices "" ++ commands, options]
  | some _ =>
    let about := "Override tool executables (also via PERFCHAIN_* environment variables)."
    [options, "tools:" :: paragraph 2 (lineWidth - 2) about ++ "" :: flagLines tools]

def help (s : Scope) : String :=
  usage s ++ String.join ((helpSections s).map fun lines => "\n" ++ unlines lines)

end HotPath.CommandLine
