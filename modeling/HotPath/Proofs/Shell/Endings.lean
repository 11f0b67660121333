import HotPath.Proofs.Results
import HotPath.Shell.Words

/-!
# Where a line of words ends

Whether a line can be split into words depends on where the reader is behind its last character and
on nothing else. The reader takes one step for each character (`Place.next`), and the line is
refused exactly if the last step leaves it between quotes or behind a backslash that has nothing to
escape (`split_eq_error_iff`).
-/

namespace HotPath.Shell

/-- Where the reader of a line is after one more character. -/
def Place.next : Place → Char → Place
  | .between, c | .bare, c =>
    if isSeparator c then .between
    else if c = '\\' then .bareEscape
    else if c = '\'' then .single
    else if c = '"' then .double
    else .bare
  | .single, c => if c = '\'' then .bare else .single
  | .double, c => if c = '"' then .bare else if c = '\\' then .doubleEscape else .double
  | .bareEscape, _ => .bare
  | .doubleEscape, _ => .double

/-- Where the reader of a line is behind its last character. -/
def endOf (line : String) : Place := line.toList.foldl Place.next .between

/-- What is missing if a line ends at this place. -/
def Place.missing? : Place → Option SplitError
  | .between | .bare => none
  | .single | .double => some .openQuote
  | .bareEscape | .doubleEscape => some .openEscape

/-- One character takes the reader to the next place, and only what is missing there can go wrong
from then on. -/
theorem exists_splitAt_cons (place : Place) (word : List Char) (c : Char) (rest : List Char) :
    ∃ word', ∀ reason, splitAt place word (c :: rest) = .error reason
      ↔ splitAt (place.next c) word' rest = .error reason := by
  -- Only a separator behind a word is read otherwise: the word is put in front of the others.
  cases place with
  | bare =>
    simp only [splitAt, Place.next]
    split_ifs
    · exact ⟨[], fun reason => map_eq_error_iff⟩
    all_goals exact ⟨_, fun reason => Iff.rfl⟩
  | between | single | double | doubleEscape =>
    simp only [splitAt, Place.next]
    split_ifs
    all_goals exact ⟨_, fun reason => Iff.rfl⟩
  | bareEscape => exact ⟨c :: word, fun reason => Iff.rfl⟩

theorem splitAt_eq_error_iff {place : Place} {word rest : List Char} {reason : SplitError} :
    splitAt place word rest = .error reason
      ↔ (rest.foldl Place.next place).missing? = some reason := by
  induction rest generalizing place word with
  | nil => cases place <;> simp [splitAt, Place.missing?]
  | cons c rest ih =>
    obtain ⟨word', hstep⟩ := exists_splitAt_cons place word c rest
    rw [hstep, ih, List.foldl_cons]

/-- A line is refused for what is missing where it ends. -/
theorem split_eq_error_iff {line : String} {reason : SplitError} :
    split line = .error reason ↔ (endOf line).missing? = some reason := by
  rw [split, map_eq_error_iff, splitAt_eq_error_iff, endOf]

/-- The line ends between quotes. -/
def EndsInQuotes (line : String) : Prop := endOf line = .single ∨ endOf line = .double

/-- The line ends behind a backslash that escapes nothing. -/
def EndsInEscape (line : String) : Prop := endOf line = .bareEscape ∨ endOf line = .doubleEscape

theorem exists_split_error_iff {line : String} :
    (∃ reason, split line = .error reason) ↔ EndsInQuotes line ∨ EndsInEscape line := by
  simp only [split_eq_error_iff, EndsInQuotes, EndsInEscape]
  cases endOf line <;> simp [Place.missing?]

end HotPath.Shell
