import HotPath.Text.Digit
import HotPath.Text.Quoted
import HotPath.Toml.Value

/-!
# TOML errors

A text that is no TOML document has a first place where that shows.

* `Problem.message`: what is wrong.
* `placeOf`: the line and the column of a place, both counted from one.
-/

namespace HotPath.Toml

inductive Problem where
  | declaredTwice (key : Key)
  /-- An entry is added to a value that was written as a whole. -/
  | immutable (key : Key)
  /-- A dotted key leads into a table that has a header. -/
  | redefined (key : Key)
  /-- A name is given two values. -/
  | overwritten
  /-- A name is given two values between two braces. -/
  | duplicateName (name : String)
  | unclosedArray
  | unclosedInlineTable
  | unclosedHeader
  | unclosedArrayHeader
  /-- Something else follows a statement on its line. -/
  | strayText
  | invalidStatement
  | invalidKeyStart
  | missingEquals
  | invalidValue
  | unterminatedText
  | unclosedLiteral (delimiter : String)
  /-- A control character stands between double quotes. -/
  | illegalCharacter (c : Char)
  /-- A control character stands between single quotes or in a comment. -/
  | invalidCharacter (c : Char)
  | invalidEscape
  | invalidHexadecimal
  | noCharacter
  | invalidDate
  deriving Repr, DecidableEq

/-- The parts of a key between parentheses; a single part has a comma behind it. -/
def keyText : Key → String
  | [part] => "(" ++ Text.quote part ++ ",)"
  | parts => "(" ++ ", ".intercalate (parts.map Text.quote) ++ ")"

def Problem.message : Problem → String
  | .declaredTwice key => "Cannot declare " ++ keyText key ++ " twice"
  | .immutable key => "Cannot mutate immutable namespace " ++ keyText key
  | .redefined key => "Cannot redefine namespace " ++ keyText key
  | .overwritten => "Cannot overwrite a value"
  | .duplicateName name => "Duplicate inline table key " ++ Text.quote name
  | .unclosedArray => "Unclosed array"
  | .unclosedInlineTable => "Unclosed inline table"
  | .unclosedHeader => "Expected ']' at the end of a table declaration"
  | .unclosedArrayHeader => "Expected ']]' at the end of an array declaration"
  | .strayText => "Expected newline or end of document after a statement"
  | .invalidStatement => "Invalid statement"
  | .invalidKeyStart => "Invalid initial character for a key part"
  | .missingEquals => "Expected '=' after a key in a key/value pair"
  | .invalidValue => "Invalid value"
  | .unterminatedText => "Unterminated string"
  | .unclosedLiteral delimiter => "Expected " ++ Text.quote delimiter
  | .illegalCharacter c => "Illegal character " ++ Text.quote c.toString
  | .invalidCharacter c => "Found invalid character " ++ Text.quote c.toString
  | .invalidEscape => "Unescaped '\\' in a string"
  | .invalidHexadecimal => "Invalid hex value"
  | .noCharacter => "Escaped character is not a Unicode scalar value"
  | .invalidDate => "Invalid date or datetime"

inductive Place where
  | spot (line column : Nat)
  | endOfText
  deriving Repr, DecidableEq

/-- The place that stands in front of the rest `behind` of a text. -/
def placeOf (text behind : List Char) : Place :=
  if behind = [] then .endOfText
  else
    let before := text.take (text.length - behind.length)
    .spot (before.count '\n' + 1) ((before.reverse.takeWhile (· ≠ '\n')).length + 1)

def Place.message : Place → String
  | .spot line column => "line " ++ toString line ++ ", column " ++ toString column
  | .endOfText => "end of document"

inductive DocumentError where
  | malformed (problem : Problem) (place : Place)
  | tooManyDigits (count : Nat)
  deriving Repr, DecidableEq

def DocumentError.message : DocumentError → String
  | .malformed problem place => problem.message ++ " (at " ++ place.message ++ ")"
  | .tooManyDigits count => Text.tooManyDigitsText count

/-- Where reading stops short: what is wrong, and the rest of the text from there on. -/
inductive Stop where
  | problem (problem : Problem) (rest : List Char)
  | tooManyDigits (count : Nat)
  deriving Repr, DecidableEq

def Stop.error (text : List Char) : Stop → DocumentError
  | .problem p rest => .malformed p (placeOf text rest)
  | .tooManyDigits count => .tooManyDigits count

end HotPath.Toml
