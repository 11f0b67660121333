import HotPath.Path

/-!
# Name patterns

A pattern for one name: `*` covers any text, `?` one character, `[...]` one character of a class,
`[!...]` one character outside it, and every other character covers itself. A bracket without a
closing one covers itself, too.

* `Covers`: the texts that a pattern covers, piece by piece.
* `matchesPieces_iff`: the matcher accepts exactly these texts.
-/

namespace HotPath.Glob

/-- An item of a character class: a character, or all characters between two. -/
inductive ClassItem where
  | one (c : Char)
  | range (low high : Char)
  deriving Repr, DecidableEq

def ClassItem.holds : ClassItem → Char → Bool
  | .one a, c => a = c
  | .range low high, c => low ≤ c && c ≤ high

def ClassItem.isInhabited : ClassItem → Bool
  | .one _ => true
  | .range low high => low ≤ high

/-- A character class: its items, and whether it holds the characters outside them instead. -/
structure CharClass where
  negated : Bool
  items : List ClassItem
  deriving Repr, DecidableEq

def CharClass.holds (k : CharClass) (c : Char) : Bool := k.negated != k.items.any (·.holds c)

/-- The items between two brackets: `a-b` is a range if both ends are there. -/
def itemsOf : List Char → List ClassItem
  | a :: '-' :: b :: rest => .range a b :: itemsOf rest
  | a :: rest => .one a :: itemsOf rest
  | [] => []

/-- The class between two brackets. A `!` in front negates it; ranges that hold nothing are dropped,
and a `!` that comes to the front by this negates the class as well. -/
def CharClass.ofText (inside : List Char) : CharClass :=
  match inside with
  | '!' :: body => ⟨true, (itemsOf body).filter (·.isInhabited)⟩
  | body =>
    let live := (itemsOf body).filter (·.isInhabited)
    if live.length = (itemsOf body).length then ⟨false, live⟩
    else match live with
      | .one '!' :: rest => ⟨true, rest⟩
      | .range '!' high :: rest => ⟨true, .one '-' :: .one high :: rest⟩
      | _ => ⟨false, live⟩

inductive Piece where
  /-- Any text. -/
  | star
  /-- Any one character. -/
  | any
  /-- One character of a class. -/
  | oneOf (k : CharClass)
  /-- This character. -/
  | only (c : Char)
  deriving Repr, DecidableEq

/-- Whether a piece covers a text of this one character. -/
def Piece.accepts : Piece → Char → Bool
  | .star, _ => true
  | .any, _ => true
  | .oneOf k, c => k.holds c
  | .only a, c => a = c

/-- Splits the text behind an opening bracket into what the class is made of and what follows its
closing bracket. A closing bracket right at the start, or right behind a `!`, belongs to the class.
-/
def bracket? (s : List Char) : Option (List Char × List Char) :=
  let bang := s.takeWhile (· = '!') |>.take 1
  let s := s.drop bang.length
  let first := s.takeWhile (· = ']') |>.take 1
  let s := s.drop first.length
  match s.dropWhile (· ≠ ']') with
  | [] => none
  | _ :: rest => some (bang ++ first ++ s.takeWhile (· ≠ ']'), rest)

theorem length_bracket?_lt {s inside rest : List Char} (h : bracket? s = some (inside, rest)) :
    rest.length < s.length := by
  simp only [bracket?] at h
  split at h
  · simp at h
  · rename_i c tail heq
    simp only [Option.some.injEq, Prod.mk.injEq] at h
    obtain ⟨-, rfl⟩ := h
    have h₁ : (c :: tail).length ≤ _ := heq ▸ (List.dropWhile_sublist _).length_le
    simp only [List.length_cons, List.length_drop] at h₁
    omega

def piecesOf (s : List Char) : List Piece :=
  match s with
  | [] => []
  | c :: rest =>
    if c = '*' then .star :: piecesOf rest
    else if c = '?' then .any :: piecesOf rest
    else if c = '[' then
      match h : bracket? rest with
      | some (inside, rest') =>
        have := length_bracket?_lt h
        .oneOf (.ofText inside) :: piecesOf rest'
      | none => .only '[' :: piecesOf rest
    else .only c :: piecesOf rest
termination_by s.length

/-- Whether pieces cover a text, and whether they cover what is left of it when one character after
the other is taken from its front. Each piece is looked at once for every character. -/
def coverage : List Piece → List Char → List Bool
  | [], s => s.map (fun _ => false) ++ [true]
  | .star :: ps, s => (coverage ps s).foldr (fun b later => (b || later.headD false) :: later) []
  | p :: ps, s => s.zipWith (fun c b => p.accepts c && b) (coverage ps s).tail ++ [false]

def matchesPieces (ps : List Piece) (s : List Char) : Bool := (coverage ps s).headD false

/-- The texts that pieces cover: a star covers any stretch, every other piece one character. -/
inductive Covers : List Piece → List Char → Prop where
  | nil : Covers [] []
  | star {ps : List Piece} (front : List Char) {s : List Char} :
      Covers ps s → Covers (.star :: ps) (front ++ s)
  | one {p : Piece} {ps : List Piece} {c : Char} {s : List Char} :
      p ≠ .star → p.accepts c → Covers ps s → Covers (p :: ps) (c :: s)

theorem coverage_nil (ps : List Piece) : coverage ps [] = [matchesPieces ps []] := by
  induction ps with
  | nil => rfl
  | cons p ps ih =>
    cases p with
    | star =>
      simp only [matchesPieces, coverage] at ih ⊢
      rw [ih]
      rfl
    | any | oneOf | only => rfl

theorem coverage_ne_nil (ps : List Piece) (s : List Char) : coverage ps s ≠ [] := by
  induction ps with
  | nil => simp [coverage]
  | cons p ps ih =>
    cases p with
    | star =>
      obtain ⟨b, later, h⟩ := List.exists_cons_of_ne_nil ih
      simp [coverage, h]
    | any | oneOf | only => simp [coverage]

theorem coverage_cons (ps : List Piece) (c : Char) (s : List Char) :
    coverage ps (c :: s) = matchesPieces ps (c :: s) :: coverage ps s := by
  induction ps with
  | nil => rfl
  | cons p ps ih =>
    generalize matchesPieces ps (c :: s) = first at ih
    obtain ⟨b, later, h⟩ := List.exists_cons_of_ne_nil (coverage_ne_nil ps s)
    cases p <;> simp [matchesPieces, coverage, ih, h]

theorem matchesPieces_star_nil (ps : List Piece) :
    matchesPieces (.star :: ps) [] = matchesPieces ps [] := by
  have h := coverage_nil ps
  generalize matchesPieces ps [] = b at h ⊢
  simp [matchesPieces, coverage, h]

theorem matchesPieces_star_cons (ps : List Piece) (c : Char) (s : List Char) :
    matchesPieces (.star :: ps) (c :: s) =
      (matchesPieces ps (c :: s) || matchesPieces (.star :: ps) s) := by
  have h := coverage_cons ps c s
  generalize matchesPieces ps (c :: s) = b at h ⊢
  simp [matchesPieces, coverage, h]

theorem matchesPieces_one_nil {p : Piece} (hp : p ≠ .star) (ps : List Piece) :
    matchesPieces (p :: ps) [] = false := by
  cases p with
  | star => exact absurd rfl hp
  | any | oneOf | only => rfl

theorem matchesPieces_one_cons {p : Piece} (hp : p ≠ .star) (ps : List Piece) (c : Char)
    (s : List Char) : matchesPieces (p :: ps) (c :: s) = (p.accepts c && matchesPieces ps s) := by
  have h := coverage_cons ps c s
  obtain ⟨b, later, hs⟩ := List.exists_cons_of_ne_nil (coverage_ne_nil ps s)
  generalize matchesPieces ps (c :: s) = first at h
  cases p with
  | star => exact absurd rfl hp
  | any | oneOf | only => simp [matchesPieces, coverage, h, hs]

theorem matchesPieces_star_iff {ps : List Piece} {s : List Char} :
    matchesPieces (.star :: ps) s ↔ ∃ front t, s = front ++ t ∧ matchesPieces ps t := by
  induction s with
  | nil =>
    rw [matchesPieces_star_nil]
    constructor
    · intro h
      exact ⟨[], [], rfl, h⟩
    · rintro ⟨front, t, hs, h⟩
      rwa [(List.append_eq_nil_iff.mp hs.symm).2] at h
  | cons c s ih =>
    rw [matchesPieces_star_cons, Bool.or_eq_true, ih]
    constructor
    · rintro (h | ⟨front, t, rfl, h⟩)
      · exact ⟨[], c :: s, rfl, h⟩
      · exact ⟨c :: front, t, rfl, h⟩
    · rintro ⟨_ | ⟨d, front⟩, t, hs, h⟩
      · exact .inl (hs ▸ h)
      · exact .inr ⟨front, t, (List.cons.inj hs).2, h⟩

/-- The matcher accepts exactly the texts that the pieces cover. -/
theorem matchesPieces_iff {ps : List Piece} {s : List Char} : matchesPieces ps s ↔ Covers ps s := by
  induction ps generalizing s with
  | nil =>
    cases s with
    | nil => exact ⟨fun _ => .nil, fun _ => rfl⟩
    | cons c s => exact ⟨fun h => by simp [matchesPieces, coverage] at h, fun h => by cases h⟩
  | cons p ps ih =>
    by_cases hp : p = .star
    · subst hp
      rw [matchesPieces_star_iff]
      constructor
      · rintro ⟨front, t, rfl, h⟩
        exact .star front (ih.mp h)
      · rintro (_ | ⟨front, h⟩ | ⟨hne, _, _⟩)
        · exact ⟨front, _, rfl, ih.mpr h⟩
        · exact absurd rfl hne
    · cases s with
      | nil =>
        rw [matchesPieces_one_nil hp]
        constructor
        · intro h
          cases h
        · generalize hs : ([] : List Char) = s
          intro h
          cases h with
          | star => exact absurd rfl hp
          | one => cases hs
      | cons c s =>
        rw [matchesPieces_one_cons hp, Bool.and_eq_true, ih]
        constructor
        · rintro ⟨h₁, h₂⟩
          exact .one hp h₁ h₂
        · generalize hs : c :: s = t
          intro h
          cases h with
          | star => exact absurd rfl hp
          | one _ h₁ h₂ =>
            cases hs
            exact ⟨h₁, h₂⟩

end HotPath.Glob
