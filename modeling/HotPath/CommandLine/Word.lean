import HotPath.CommandLine.Flag
import HotPath.Text.Digit
import HotPath.Text.Quoted

/-!
# Words of a command line

A word names a flag, looks like one that is not known, or is plain. A flag may be cut short as long
as one flag only starts like that, and its value may stand behind an equals sign.

* `Word.read`: what a word is.
-/

namespace HotPath.CommandLine

inductive UsageError where
  | ambiguous (word : String) (flags : List Flag)
  | missingValue (flag : Flag)
  /-- A flag that takes no value is given one. -/
  | ignoredValue (flag : Flag) (value : String)
  | invalidInteger (flag : Flag) (value : String)
  | invalidChoice (flag : Flag) (value : String) (choices : List String)
  | missingCommand
  | unknownCommand (name : String)
  | leftOver (words : List String)
  | noConfiguration (reason : LoadError)
  deriving Repr, DecidableEq

def aboutFlag (f : Flag) (text : String) : String := "argument " ++ f.errorName ++ ": " ++ text

def choiceText (value : String) (choices : List String) : String :=
  "invalid choice: " ++ Text.quote value ++ " (choose from " ++
    ", ".intercalate (choices.map Text.quote) ++ ")"

def UsageError.message : UsageError → String
  | ambiguous word flags =>
    "ambiguous option: " ++ word ++ " could match " ++ ", ".intercalate (flags.map (·.word))
  | missingValue flag => aboutFlag flag "expected one argument"
  | ignoredValue flag value => aboutFlag flag ("ignored explicit argument " ++ Text.quote value)
  | invalidInteger flag value => aboutFlag flag ("invalid int value: " ++ Text.quote value)
  | invalidChoice flag value choices => aboutFlag flag (choiceText value choices)
  | missingCommand => "the following arguments are required: cmd"
  | unknownCommand name => "argument cmd: " ++ choiceText name (Command.all.map (·.name))
  | leftOver words => "unrecognized arguments: " ++ " ".intercalate words
  | noConfiguration reason => reason.message

/-- What a word of a command line is. -/
inductive Word where
  /-- A flag, with the value that stands in the same word. -/
  | flag (f : Flag) (value : Option String)
  /-- The short way to ask for help, with what stands behind it. -/
  | shortHelp (behind : String)
  /-- It looks like a flag, but there is none. -/
  | unknown (text : String)
  | plain (text : String)
  deriving Repr, DecidableEq

/-- Whether a text is written like a negative number, with or without a point; a line feed at its
end does not matter. -/
def looksNegative (s : List Char) : Bool :=
  match s with
  | '-' :: rest =>
    let body := if rest.getLast? = some '\n' then rest.dropLast else rest
    let behind := body.dropWhile Text.isDigit
    match behind with
    | [] => body ≠ []
    | '.' :: fraction => fraction ≠ [] && fraction.all Text.isDigit
    | _ => false
  | _ => false

/-- A text in front of its first equals sign, and the text behind it if there is one. -/
def cutAtEquals (s : String) : String × Option String :=
  let cs := s.toList
  let name := cs.takeWhile (· ≠ '=')
  (.ofList name, (cs.drop name.length).tail?.map String.ofList)

namespace Word

/-- The flag of a name, if one of the flags is written like that. -/
def named? (flags : List Flag) (name : String) (value : Option String) : Option Word :=
  if name = Flag.shortHelp then some (match value with
    | none => flag .help none
    | some v => shortHelp v)
  else (flags.find? (·.word = name)).map (flag · value)

/-- What a word is that is not a flag in full. -/
def readLoose (flags : List Flag) (text : String) : Except UsageError Word :=
  let cs := text.toList
  let (name, value) := cutAtEquals text
  let starting := if ['-', '-'].isPrefixOf cs then
    flags.filter fun f => name.toList.isPrefixOf f.word.toList else []
  match starting with
  | [f] => .ok (flag f value)
  | _ :: _ => .error (.ambiguous text starting)
  | [] =>
    if Flag.shortHelp.toList.isPrefixOf cs then .ok (shortHelp (.ofList (cs.drop 2)))
    else if looksNegative cs || cs.contains ' ' then .ok (plain text)
    else .ok (unknown text)

def read (flags : List Flag) (text : String) : Except UsageError Word :=
  match text.toList with
  | '-' :: _ :: _ =>
    let (name, value) := cutAtEquals text
    match named? flags text none <|> value.bind fun v => named? flags name (some v) with
    | some w => .ok w
    | none => readLoose flags text
  | _ => .ok (plain text)

end Word

end HotPath.CommandLine
