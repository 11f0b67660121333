import HotPath.Text.Blank

/-!
# Laying out help

Usage and help are set in lines of at most `lineWidth` characters. Lines are filled greedily: an
item goes to a new line only if it does not fit behind the items before it.

* `fill`: cuts items into lines.
-/

namespace HotPath.CommandLine

def lineWidth : Nat := 78

def helpColumn : Nat := 24

/-- Cuts items into lines of `width` characters, with a space between two items of a line. The line
that is being filled holds `line`, the last item first, and takes `used` characters. -/
def fillFrom (width : Nat) (line : List String) (used : Nat) : List String → List (List String)
  | [] => [line.reverse]
  | item :: rest =>
    if line ≠ [] ∧ width < used + 1 + item.length then
      line.reverse :: fillFrom width [item] item.length rest
    else
      let used := if line = [] then item.length else used + 1 + item.length
      fillFrom width (item :: line) used rest

/-- Cuts items into lines of `width` characters. -/
def fill (width : Nat) (items : List String) : List (List String) :=
  if items = [] then [] else fillFrom width [] 0 items

def spaces (n : Nat) : String := .ofList (List.replicate n ' ')

/-- The lines of a text that is filled again, behind `indent` spaces each. -/
def paragraph (indent width : Nat) (text : String) : List String :=
  let items := (Text.words text.toList).map String.ofList
  (fill width items).map fun line => spaces indent ++ " ".intercalate line

/-- Items behind a heading, and further items on lines of their own; every line but the first starts
under the first item. If all of it fits on one line, it stands there. -/
def usageLines (heading : String) (options others : List String) : List String :=
  let indent := heading.length + 1
  let whole := " ".intercalate (heading :: options ++ others)
  if whole.length ≤ lineWidth then [whole]
  else
    let lines := (fill (lineWidth - indent) options ++ fill (lineWidth - indent) others).map
      fun line => spaces indent ++ " ".intercalate line
    match lines with
    | [] => [heading]
    | first :: rest => (heading ++ first.drop heading.length) :: rest

/-- An entry of a help: how it is written, behind `indent` spaces, and what it does. The help stands
on the same line if there is room for it. -/
def entryLines (indent : Nat) (written help : String) : List String :=
  let front := spaces indent ++ written
  if help = "" then [front]
  else
    let lines := paragraph helpColumn (lineWidth - helpColumn) help
    if front.length + 2 ≤ helpColumn then
      match lines with
      | [] => [front]
      | first :: rest => (front ++ first.drop front.length) :: rest
    else front :: lines

end HotPath.CommandLine
