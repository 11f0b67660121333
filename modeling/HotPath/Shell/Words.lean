/-!
# Shell words

A command line is a list of words. `join` writes the words with quotes where they are needed;
`split` reads a line as a POSIX shell reads its words, without expansions, operators and comments.

* `split`: blanks separate words; single quotes keep everything; double quotes keep everything
  except that a backslash escapes a double quote or a backslash; elsewhere a backslash keeps the
  next character.
* `join`: a word of harmless characters stands as it is, every other word between single quotes.
* `SplitError`: a line that ends inside quotes or after a backslash has no words.
-/

namespace HotPath.Shell

inductive SplitError where
  | openQuote
  | openEscape
  deriving Repr, DecidableEq

def SplitError.message : SplitError → String
  | .openQuote => "No closing quotation"
  | .openEscape => "No escaped character"

def isSeparator (c : Char) : Bool := c = ' ' || c = '\t' || c = '\r' || c = '\n'

/-- Where the reader of a line is. -/
inductive Place where
  /-- Between two words. -/
  | between
  /-- Inside a word, outside quotes. -/
  | bare
  /-- Between single quotes. -/
  | single
  /-- Between double quotes. -/
  | double
  | bareEscape
  | doubleEscape
  deriving Repr, DecidableEq

/-- Reads the rest of a line at a place; `word` holds the characters of the word begun so far, the
last one first. -/
def splitAt : Place → List Char → List Char → Except SplitError (List (List Char))
  | .between, _, [] => .ok []
  | .bare, word, [] => .ok [word.reverse]
  | .single, _, [] => .error .openQuote
  | .double, _, [] => .error .openQuote
  | .bareEscape, _, [] => .error .openEscape
  | .doubleEscape, _, [] => .error .openEscape
  | .between, _, c :: rest =>
    if isSeparator c then splitAt .between [] rest
    else if c = '\\' then splitAt .bareEscape [] rest
    else if c = '\'' then splitAt .single [] rest
    else if c = '"' then splitAt .double [] rest
    else splitAt .bare [c] rest
  | .bare, word, c :: rest =>
    if isSeparator c then (splitAt .between [] rest).map (word.reverse :: ·)
    else if c = '\\' then splitAt .bareEscape word rest
    else if c = '\'' then splitAt .single word rest
    else if c = '"' then splitAt .double word rest
    else splitAt .bare (c :: word) rest
  | .single, word, c :: rest =>
    if c = '\'' then splitAt .bare word rest else splitAt .single (c :: word) rest
  | .double, word, c :: rest =>
    if c = '"' then splitAt .bare word rest
    else if c = '\\' then splitAt .doubleEscape word rest
    else splitAt .double (c :: word) rest
  | .bareEscape, word, c :: rest => splitAt .bare (c :: word) rest
  | .doubleEscape, word, c :: rest =>
    if c = '"' || c = '\\' then splitAt .double (c :: word) rest
    else splitAt .double (c :: '\\' :: word) rest

def split (line : String) : Except SplitError (List String) :=
  (splitAt .between [] line.toList).map (·.map String.ofList)

/-- The characters that mean nothing to a shell. -/
def isHarmless (c : Char) : Bool := c.isAlphanum || "_@%+=:,./-".toList.contains c

/-- One character between single quotes; a single quote itself is put between double quotes. -/
def encloseChar (c : Char) : List Char :=
  if c = '\'' then ['\'', '"', '\'', '"', '\''] else [c]

/-- A word as it has to be written to be read as one word. -/
def encodeWord (word : List Char) : List Char :=
  if word ≠ [] ∧ word.all isHarmless then word
  else '\'' :: word.flatMap encloseChar ++ ['\'']

def join (words : List String) : String :=
  String.ofList ((words.map fun w => encodeWord w.toList).intersperse [' ']).flatten

end HotPath.Shell
