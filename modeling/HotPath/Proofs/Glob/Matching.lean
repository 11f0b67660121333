import HotPath.Glob.Search
import HotPath.Proofs.SourceDir

/-!
# The names that a pattern matches

The matcher works on the pieces of a pattern. What it accepts can be said of the text of the pattern
alone (`Matches`): a name can be cut so that each `*` covers any stretch of it, each `?` and each
class one character, and everything else covers itself.

* `Encloses`: where a class ends, if it does.
* `InClass`: the characters of a class.
* `covers_piecesOf_iff`: the pieces of a pattern cover what its text matches.
* `cases_of_parse`: a pattern that is one name asks for that name or, if it has wildcards, for the
  names that its pieces cover.
-/

namespace HotPath.Glob

open Text

/-! ## Brackets -/

/-- The text behind an opening bracket, what its class is made of, and what follows the closing
bracket. The first character of a class, or the first behind a `!`, does not close it. -/
inductive Encloses : List Char → List Char → List Char → Prop where
  | plain {first : Char} {body rest : List Char} : first ≠ '!' → ']' ∉ body →
      Encloses (first :: (body ++ ']' :: rest)) (first :: body) rest
  | negated {first : Char} {body rest : List Char} : ']' ∉ body →
      Encloses ('!' :: first :: (body ++ ']' :: rest)) ('!' :: first :: body) rest

/-- Splits a text behind its first character at a closing bracket. -/
def close? : List Char → Option (List Char × List Char)
  | [] => none
  | c :: s =>
    match s.dropWhile (· ≠ ']') with
    | [] => none
    | _ :: rest => some (c :: s.takeWhile (· ≠ ']'), rest)

theorem close?_eq_some_iff {s inside rest : List Char} :
    close? s = some (inside, rest) ↔
      ∃ first body, ']' ∉ body ∧ inside = first :: body ∧ s = first :: (body ++ ']' :: rest) := by
  constructor
  · intro h
    unfold close? at h
    split at h
    · cases h
    · rename_i c s
      have hs := (List.takeWhile_append_dropWhile (p := (· ≠ ']')) (l := s)).symm
      have hstop := stops_dropWhile (· ≠ ']') s
      split at h
      · cases h
      · rename_i d rest' hdrop
        cases h
        rw [hdrop] at hs hstop
        obtain rfl : d = ']' := by simpa using stops_cons.mp hstop
        refine ⟨c, _, fun hmem => ?_, rfl, congrArg _ hs⟩
        simpa using all_takeWhile _ _ _ hmem
  · rintro ⟨first, body, hbody, rfl, rfl⟩
    have hall : ∀ c ∈ body, decide (c ≠ ']') = true := by
      intro c hc
      rw [decide_eq_true_eq]
      rintro rfl
      exact hbody hc
    have hstop : Stops (fun c : Char => decide (c ≠ ']')) (']' :: rest) := stops_cons.mpr (by simp)
    rw [close?, dropWhile_span hall hstop, takeWhile_span hall hstop]

theorem bracket?_of_ne {first : Char} (h : first ≠ '!') (s : List Char) :
    bracket? (first :: s) = close? (first :: s) := by
  by_cases hclose : first = ']'
  · subst hclose
    cases hdrop : s.dropWhile (fun c => !decide (c = ']')) <;> simp [bracket?, close?, hdrop]
  · cases hdrop : s.dropWhile (fun c => !decide (c = ']')) <;>
      simp [bracket?, close?, h, hclose, hdrop]

theorem bracket?_bang (s : List Char) :
    bracket? ('!' :: s) = (close? s).map fun split => ('!' :: split.1, split.2) := by
  cases s with
  | nil => rfl
  | cons first s =>
    by_cases hclose : first = ']'
    · subst hclose
      cases hdrop : s.dropWhile (fun c => !decide (c = ']')) <;> simp [bracket?, close?, hdrop]
    · cases hdrop : s.dropWhile (fun c => !decide (c = ']')) <;>
        simp [bracket?, close?, hclose, hdrop]

theorem bracket?_eq_some_iff {s inside rest : List Char} :
    bracket? s = some (inside, rest) ↔ Encloses s inside rest := by
  constructor
  · intro h
    cases s with
    | nil => cases h
    | cons first s =>
      by_cases hbang : first = '!'
      · subst hbang
        rw [bracket?_bang] at h
        obtain ⟨⟨inside', rest'⟩, hsplit, heq⟩ := Option.map_eq_some_iff.mp h
        cases heq
        obtain ⟨first, body, hbody, rfl, rfl⟩ := close?_eq_some_iff.mp hsplit
        exact .negated hbody
      · rw [bracket?_of_ne hbang] at h
        obtain ⟨first', body, hbody, rfl, hs⟩ := close?_eq_some_iff.mp h
        cases hs
        exact .plain hbang hbody
  · intro h
    cases h with
    | plain hbang hbody =>
      rw [bracket?_of_ne hbang]
      exact close?_eq_some_iff.mpr ⟨_, _, hbody, rfl, rfl⟩
    | negated hbody =>
      rw [bracket?_bang, close?_eq_some_iff.mpr ⟨_, _, hbody, rfl, rfl⟩]
      rfl

theorem Encloses.unique {s inside rest inside' rest' : List Char} (h : Encloses s inside rest)
    (h' : Encloses s inside' rest') : inside = inside' ∧ rest = rest' := by
  have heq := (bracket?_eq_some_iff.mpr h).symm.trans (bracket?_eq_some_iff.mpr h')
  exact Prod.mk.inj (Option.some.inj heq)

/-! ## Classes -/

/-- The items of a class that hold something. -/
def liveItems (text : List Char) : List ClassItem := (itemsOf text).filter (·.isInhabited)

/-- The character that an item starts with. -/
def ClassItem.first : ClassItem → Char
  | .one a => a
  | .range low _ => low

/-- The character belongs to the class of a text between brackets. A `!` in front stands for the
characters outside; so does a `!` that comes to the front when ranges that hold nothing are dropped,
and a hyphen behind it stands for itself. -/
inductive InClass : List Char → Char → Prop where
  | outside {body : List Char} {c : Char} : (∀ item ∈ liveItems body, item.holds c = false) →
      InClass ('!' :: body) c
  | inside {text : List Char} {c : Char} {item : ClassItem} : text.head? ≠ some '!' →
      (liveItems text).head?.map ClassItem.first ≠ some '!' →
      item ∈ liveItems text → item.holds c = true → InClass text c
  | surfaced {text : List Char} {c : Char} {rest : List ClassItem} : text.head? ≠ some '!' →
      liveItems text = .one '!' :: rest → (∀ item ∈ rest, item.holds c = false) → InClass text c
  | surfacedRange {text : List Char} {c high : Char} {rest : List ClassItem} :
      text.head? ≠ some '!' → liveItems text = .range '!' high :: rest → c ≠ '-' → c ≠ high →
      (∀ item ∈ rest, item.holds c = false) → InClass text c

theorem head?_itemsOf (text : List Char) :
    (itemsOf text).head?.map ClassItem.first = text.head? := by
  fun_cases itemsOf text <;> rfl

theorem holds_negated_iff {items : List ClassItem} {c : Char} :
    CharClass.holds ⟨true, items⟩ c = true ↔ ∀ item ∈ items, item.holds c = false := by
  simp [CharClass.holds]

theorem holds_plain_iff {items : List ClassItem} {c : Char} :
    CharClass.holds ⟨false, items⟩ c = true ↔ ∃ item ∈ items, item.holds c = true := by
  simp [CharClass.holds]

/-- Nothing was dropped if the text does not start with a `!` and the first item that is left
does. -/
theorem length_liveItems_ne {text : List Char} (hbang : text.head? ≠ some '!')
    (hfirst : (liveItems text).head?.map ClassItem.first = some '!') :
    (liveItems text).length ≠ (itemsOf text).length := by
  intro hlength
  have hall : liveItems text = itemsOf text := List.filter_sublist.eq_of_length hlength
  rw [hall, head?_itemsOf] at hfirst
  exact hbang hfirst

/-- Whether items were dropped shows in the first one that is left. -/
theorem ofText_of_head?_ne {text : List Char} (hbang : text.head? ≠ some '!') :
    CharClass.ofText text =
      match liveItems text with
      | .one '!' :: rest => ⟨true, rest⟩
      | .range '!' high :: rest => ⟨true, .one '-' :: .one high :: rest⟩
      | _ => ⟨false, liveItems text⟩ := by
  have hne := length_liveItems_ne hbang
  unfold CharClass.ofText
  split
  · exact absurd rfl hbang
  · change (if (liveItems text).length = (itemsOf text).length then _ else _) = _
    split
    · rename_i hlength
      split
      · rename_i heq
        exact absurd hlength (hne (by rw [heq]; rfl))
      · rename_i heq
        exact absurd hlength (hne (by rw [heq]; rfl))
      · rfl
    · rfl

theorem first_ne_bang {items : List ClassItem} (hone : ∀ rest, items ≠ .one '!' :: rest)
    (hrange : ∀ high rest, items ≠ .range '!' high :: rest) :
    items.head?.map ClassItem.first ≠ some '!' := by
  cases items with
  | nil => exact nofun
  | cons item rest =>
    intro hfirst
    cases item with
    | one a =>
      obtain rfl : a = '!' := Option.some.inj hfirst
      exact hone rest rfl
    | range low high =>
      obtain rfl : low = '!' := Option.some.inj hfirst
      exact hrange high rest rfl

theorem holds_ofText_iff {text : List Char} {c : Char} :
    (CharClass.ofText text).holds c = true ↔ InClass text c := by
  by_cases hbang : text.head? = some '!'
  · obtain ⟨body, rfl⟩ := List.head?_eq_some_iff.mp hbang
    refine holds_negated_iff.trans ⟨.outside, fun h => ?_⟩
    cases h with
    | outside hout => exact hout
    | inside hne | surfaced hne | surfacedRange hne => exact absurd rfl hne
  · rw [ofText_of_head?_ne hbang]
    split
    · rename_i hlive
      refine holds_negated_iff.trans ⟨.surfaced hbang hlive, fun h => ?_⟩
      cases h with
      | outside => exact absurd rfl hbang
      | inside _ hfirst => exact absurd (by rw [hlive]; rfl) hfirst
      | surfaced _ hlive' hout =>
        cases hlive.symm.trans hlive'
        exact hout
      | surfacedRange _ hlive' => cases hlive.symm.trans hlive'
    · rename_i high rest hlive
      have hitems : CharClass.holds ⟨true, .one '-' :: .one high :: rest⟩ c = true ↔
          c ≠ '-' ∧ c ≠ high ∧ ∀ item ∈ rest, item.holds c = false := by
        simp [holds_negated_iff, ClassItem.holds, @eq_comm _ c]
      refine hitems.trans ⟨fun ⟨h₁, h₂, hout⟩ => .surfacedRange hbang hlive h₁ h₂ hout, fun h => ?_⟩
      cases h with
      | outside => exact absurd rfl hbang
      | inside _ hfirst => exact absurd (by rw [hlive]; rfl) hfirst
      | surfaced _ hlive' => cases hlive.symm.trans hlive'
      | surfacedRange _ hlive' h₁ h₂ hout =>
        cases hlive.symm.trans hlive'
        exact ⟨h₁, h₂, hout⟩
    · rename_i hone hrange
      have hfirst := first_ne_bang hone hrange
      rw [holds_plain_iff]
      constructor
      · rintro ⟨item, hitem, hholds⟩
        exact .inside hbang hfirst hitem hholds
      · intro h
        cases h with
        | outside => exact absurd rfl hbang
        | inside _ _ hitem hholds => exact ⟨_, hitem, hholds⟩
        | surfaced _ hlive => exact absurd hlive (hone _)
        | surfacedRange _ hlive => exact absurd hlive (hrange _ _)

/-! ## Names -/

/-- The pattern matches the name. The name can be cut so that each `*` covers any stretch, each `?`
any one character, each class one of its characters, and every other character itself; a bracket
that no class follows is such a character. -/
inductive Matches : List Char → List Char → Prop where
  | nil : Matches [] []
  | star {pattern name : List Char} (front : List Char) : Matches pattern name →
      Matches ('*' :: pattern) (front ++ name)
  | any {pattern name : List Char} (c : Char) : Matches pattern name →
      Matches ('?' :: pattern) (c :: name)
  | oneOf {pattern inside rest name : List Char} {c : Char} : Encloses pattern inside rest →
      InClass inside c → Matches rest name → Matches ('[' :: pattern) (c :: name)
  | unclosed {pattern name : List Char} : (∀ inside rest, ¬ Encloses pattern inside rest) →
      Matches pattern name → Matches ('[' :: pattern) ('[' :: name)
  | self {pattern name : List Char} {c : Char} : c ≠ '*' → c ≠ '?' → c ≠ '[' →
      Matches pattern name → Matches (c :: pattern) (c :: name)

theorem covers_nil_iff {name : List Char} : Covers [] name ↔ name = [] := by
  constructor
  · intro h
    cases h
    rfl
  · rintro rfl
    exact .nil

theorem covers_star_iff {ps : List Piece} {name : List Char} :
    Covers (.star :: ps) name ↔ ∃ front rest, name = front ++ rest ∧ Covers ps rest := by
  constructor
  · intro h
    cases h with
    | star front h => exact ⟨front, _, rfl, h⟩
    | one hne => exact absurd rfl hne
  · rintro ⟨front, rest, rfl, h⟩
    exact .star front h

theorem covers_one_iff {p : Piece} (hp : p ≠ .star) {ps : List Piece} {name : List Char} :
    Covers (p :: ps) name ↔ ∃ c rest, name = c :: rest ∧ p.accepts c = true ∧ Covers ps rest := by
  constructor
  · intro h
    cases h with
    | star => exact absurd rfl hp
    | one _ hc h => exact ⟨_, _, rfl, hc, h⟩
  · rintro ⟨c, rest, rfl, hc, h⟩
    exact .one hp hc h

theorem covers_only_iff {a : Char} {ps : List Piece} {name : List Char} :
    Covers (.only a :: ps) name ↔ ∃ rest, name = a :: rest ∧ Covers ps rest := by
  refine (covers_one_iff (by nofun)).trans ⟨?_, ?_⟩
  · rintro ⟨c, rest, rfl, hc, h⟩
    obtain rfl := of_decide_eq_true hc
    exact ⟨rest, rfl, h⟩
  · rintro ⟨rest, rfl, h⟩
    exact ⟨a, rest, rfl, decide_eq_true rfl, h⟩

theorem matches_nil_iff {name : List Char} : Matches [] name ↔ name = [] := by
  constructor
  · intro h
    cases h
    rfl
  · rintro rfl
    exact .nil

theorem matches_star_iff {pattern name : List Char} :
    Matches ('*' :: pattern) name ↔
      ∃ front rest, name = front ++ rest ∧ Matches pattern rest := by
  constructor
  · generalize hc : '*' = c
    intro h
    cases h with
    | star front h => exact ⟨front, _, rfl, h⟩
    | any | oneOf | unclosed => cases hc
    | self hne => exact absurd hc.symm hne
  · rintro ⟨front, rest, rfl, h⟩
    exact .star front h

theorem matches_any_iff {pattern name : List Char} :
    Matches ('?' :: pattern) name ↔ ∃ c rest, name = c :: rest ∧ Matches pattern rest := by
  constructor
  · generalize hc : '?' = c
    intro h
    cases h with
    | any c h => exact ⟨c, _, rfl, h⟩
    | star | oneOf | unclosed => cases hc
    | self _ hne => exact absurd hc.symm hne
  · rintro ⟨c, rest, rfl, h⟩
    exact .any c h

theorem matches_oneOf_iff {pattern inside behind name : List Char}
    (hclosed : Encloses pattern inside behind) :
    Matches ('[' :: pattern) name ↔
      ∃ c rest, name = c :: rest ∧ InClass inside c ∧ Matches behind rest := by
  constructor
  · generalize hc : '[' = c
    intro h
    cases h with
    | oneOf hclosed' hin h =>
      obtain ⟨rfl, rfl⟩ := hclosed.unique hclosed'
      exact ⟨_, _, rfl, hin, h⟩
    | unclosed hnone => exact absurd hclosed (hnone _ _)
    | star | any => cases hc
    | self _ _ hne => exact absurd hc.symm hne
  · rintro ⟨c, rest, rfl, hin, h⟩
    exact .oneOf hclosed hin h

theorem matches_unclosed_iff {pattern name : List Char}
    (hnone : ∀ inside rest, ¬ Encloses pattern inside rest) :
    Matches ('[' :: pattern) name ↔ ∃ rest, name = '[' :: rest ∧ Matches pattern rest := by
  constructor
  · generalize hc : '[' = c
    intro h
    cases h with
    | oneOf hclosed => exact absurd hclosed (hnone _ _)
    | unclosed _ h => exact ⟨_, rfl, h⟩
    | star | any => cases hc
    | self _ _ hne => exact absurd hc.symm hne
  · rintro ⟨rest, rfl, h⟩
    exact .unclosed hnone h

theorem matches_self_iff {c : Char} {pattern name : List Char} (hstar : c ≠ '*') (hany : c ≠ '?')
    (hbracket : c ≠ '[') :
    Matches (c :: pattern) name ↔ ∃ rest, name = c :: rest ∧ Matches pattern rest := by
  constructor
  · intro h
    cases h with
    | star => exact absurd rfl hstar
    | any => exact absurd rfl hany
    | oneOf | unclosed => exact absurd rfl hbracket
    | self _ _ _ h => exact ⟨_, rfl, h⟩
  · rintro ⟨rest, rfl, h⟩
    exact .self hstar hany hbracket h

/-- The pieces of a pattern cover the names that its text matches. -/
theorem covers_piecesOf_iff {pattern name : List Char} :
    Covers (piecesOf pattern) name ↔ Matches pattern name := by
  fun_induction piecesOf pattern generalizing name with
  | case1 => rw [covers_nil_iff, matches_nil_iff]
  | case2 pattern ih => simp only [covers_star_iff, matches_star_iff, ih]
  | case3 pattern _ ih =>
    refine (covers_one_iff (by nofun)).trans (Iff.trans ?_ matches_any_iff.symm)
    simp only [ih, Piece.accepts, true_and]
  | case4 pattern inside behind hsplit _ _ _ ih =>
    have hclosed := bracket?_eq_some_iff.mp hsplit
    refine (covers_one_iff (by nofun)).trans (Iff.trans ?_ (matches_oneOf_iff hclosed).symm)
    simp only [ih, Piece.accepts, holds_ofText_iff]
  | case5 pattern hsplit _ _ ih =>
    have hnone : ∀ inside rest, ¬ Encloses pattern inside rest := by
      intro inside rest hclosed
      rw [bracket?_eq_some_iff.mpr hclosed] at hsplit
      cases hsplit
    simp only [covers_only_iff, matches_unclosed_iff hnone, ih]
  | case6 c pattern hstar hany hbracket ih =>
    simp only [covers_only_iff, matches_self_iff hstar hany hbracket, ih]

/-- A pattern without wildcards matches itself alone. -/
theorem matches_iff_eq {pattern name : List Char}
    (hplain : ∀ c ∈ pattern, c ≠ '*' ∧ c ≠ '?' ∧ c ≠ '[') :
    Matches pattern name ↔ name = pattern := by
  induction pattern generalizing name with
  | nil => exact matches_nil_iff
  | cons c pattern ih =>
    obtain ⟨⟨hstar, hany, hbracket⟩, hrest⟩ := List.forall_mem_cons.mp hplain
    rw [matches_self_iff hstar hany hbracket]
    constructor
    · rintro ⟨rest, rfl, h⟩
      rw [(ih hrest).mp h]
    · rintro rfl
      exact ⟨pattern, rfl, (ih hrest).mpr rfl⟩

/-! ## Patterns of one name -/

variable {text : String}

/-- The text has no wildcards. -/
def Wildless (text : String) : Prop := ∀ c ∈ text.toList, c ≠ '*' ∧ c ≠ '?' ∧ c ≠ '['

theorem wildless_iff :
    Wildless text ↔ text.toList.any (fun c => c = '*' || c = '?' || c = '[') = false := by
  simp [Wildless, and_assoc]

/-- The pattern of one name takes one step. -/
theorem parse_of_name (hname : Path.IsPlainName text) :
    PathPattern.parse text = (stepOf text).map fun step => ⟨[step], false⟩ := by
  have hall : ∀ n ∈ [text], Path.IsPlainName n := by simpa using hname
  have hnames := Path.namesOf_plain (List.cons_ne_nil _ _) hall
  have hroot := Path.rootOf_plain hall
  rw [String.intercalate_singleton] at hnames hroot
  have hlast : text.toList.getLast? ≠ some '/' := fun hlast =>
    hname.2 (List.mem_of_getLast? hlast)
  have hparse : Path.parse text = ⟨.relative, [text]⟩ := by
    rw [Path.parse, hnames, hroot]
  rw [PathPattern.parse, if_neg hname.ne_empty, hparse]
  simp only [Path.isAbsolute, ne_eq, not_true, decide_false, Bool.false_eq_true, if_false,
    List.cons_ne_nil, hlast]
  rw [List.mapM_cons]
  cases stepOf text <;> rfl

theorem stepOf_of_not_hasDoubleStar (hstars : hasDoubleStar text.toList = false) :
    stepOf text = .ok (if text.toList.any (fun c => c = '*' || c = '?' || c = '[') then
      .covering (piecesOf text.toList) else .exactly text) := by
  have hdescend : text.toList ≠ ['*', '*'] := by
    intro htext
    rw [htext] at hstars
    exact absurd hstars (by decide)
  rw [stepOf, if_neg hdescend, if_neg (by simp [hstars])]
  split <;> rfl

variable (hname : Path.IsPlainName text) (hstars : hasDoubleStar text.toList = false)

include hname hstars

/-- A name with wildcards asks for the names that its pieces cover. -/
theorem parse_of_wild (hwild : ¬ Wildless text) :
    PathPattern.parse text = .ok ⟨[.covering (piecesOf text.toList)], false⟩ := by
  rw [wildless_iff, Bool.not_eq_false] at hwild
  rw [parse_of_name hname, stepOf_of_not_hasDoubleStar hstars, if_pos hwild]
  rfl

/-- A name without wildcards asks for itself. -/
theorem parse_of_wildless (hplain : Wildless text) :
    PathPattern.parse text = .ok ⟨[.exactly text], false⟩ := by
  have hnone := Bool.eq_false_iff.mp (wildless_iff.mp hplain)
  rw [parse_of_name hname, stepOf_of_not_hasDoubleStar hstars, if_neg hnone]
  rfl

theorem exists_parse_of_name : ∃ pattern, PathPattern.parse text = .ok pattern := by
  rw [parse_of_name hname, stepOf_of_not_hasDoubleStar hstars]
  exact ⟨_, rfl⟩

/-- What the pattern of one name can be. -/
theorem cases_of_parse {pattern : PathPattern} (h : PathPattern.parse text = .ok pattern) :
    (Wildless text ∧ pattern = ⟨[.exactly text], false⟩) ∨
      (¬ Wildless text ∧ pattern = ⟨[.covering (piecesOf text.toList)], false⟩) := by
  by_cases hplain : Wildless text
  · exact .inl ⟨hplain, Except.ok.inj (h.symm.trans (parse_of_wildless hname hstars hplain))⟩
  · exact .inr ⟨hplain, Except.ok.inj (h.symm.trans (parse_of_wild hname hstars hplain))⟩

end HotPath.Glob
