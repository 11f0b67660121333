import HotPath.Proofs.Report.Locations

/-!
# The location column

Behind the cost and the share of a line stand event columns, made of digits and a few marks. The
first word that is no event column is the location column of the line. If it lies in the project, it
is the location that is read. If it does not, the reader goes on: any later word that starts like a
location of the project takes its place, be it part of a name, of a comment or of quoted source
(`location_iff`). So a line that belongs to no file of the project can be kept
(`not_forall_located`).
-/

namespace HotPath.Report

open Text

/-- Digits, and the marks that stand in counts and shares. -/
def isEventChar (c : Char) : Bool := isDigit c || [',', '.', '(', ')', '%'].contains c

/-- A word of a line that holds a count or a share. -/
def isEventColumn (w : List Char) : Bool := w.all isEventChar

/-- The columns of a line in three parts: the event columns, the location column, and the words
behind it. -/
structure Parts (columns : List Char) (events : List (List Char)) (column : List Char)
    (behind : List (List Char)) : Prop where
  words_eq : words columns = events ++ column :: behind
  events : ∀ w ∈ events, isEventColumn w = true
  column : isEventColumn column = false

/-- Only event columns stand in front of the location. -/
def Located (columns location : List Char) : Prop :=
  ∃ before after, words columns = before ++ location :: after ∧
    ∀ w ∈ before, isEventColumn w = true

theorem not_isEventColumn_of_mem {w : List Char} (h : '/' ∈ w) : isEventColumn w = false := by
  refine List.all_eq_false.mpr ⟨'/', h, ?_⟩
  decide

variable {prefixes : List String} {columns location column : List Char}
  {events behind : List (List Char)}

/-- No event column starts like a location of the project. -/
theorem IsLocation.not_isEventColumn (hprefixes : ∀ p ∈ prefixes, '/' ∈ p.toList) {w : List Char}
    (h : IsLocation prefixes w) : isEventColumn w = false := by
  obtain ⟨p, hp, hstart⟩ := h
  exact not_isEventColumn_of_mem (hstart.subset (hprefixes p hp))

theorem exists_parts {w : List Char} (hw : w ∈ words columns) (hcolumn : isEventColumn w = false) :
    ∃ events column behind, Parts columns events column behind := by
  have hcut := List.takeWhile_append_dropWhile (p := isEventColumn) (l := words columns)
  cases hrest : (words columns).dropWhile isEventColumn with
  | nil =>
    rw [List.dropWhile_eq_nil_iff] at hrest
    rw [hrest w hw] at hcolumn
    cases hcolumn
  | cons column behind =>
    rw [hrest] at hcut
    refine ⟨_, column, behind, hcut.symm, all_takeWhile isEventColumn _, ?_⟩
    exact stops_cons.mp (hrest ▸ stops_dropWhile isEventColumn (words columns))

/-- A located word that is no event column is the location column. -/
theorem Parts.eq_of_located (h : Parts columns events column behind)
    (hlocation : isEventColumn location = false) (hlocated : Located columns location) :
    location = column := by
  obtain ⟨before, after, hwords, hbefore⟩ := hlocated
  rw [h.words_eq] at hwords
  obtain ⟨-, hrest⟩ := span_unique h.events (stops_cons.mpr h.column) hbefore
    (stops_cons.mpr hlocation) hwords
  exact (List.cons.inj hrest).1.symm

section Found

variable (hprefixes : ∀ p ∈ prefixes, '/' ∈ p.toList) (hparts : Parts columns events column behind)
  (hfound : FirstLocation prefixes columns location)

include hprefixes hparts hfound

/-- The location is looked for behind the event columns. -/
theorem Parts.find?_eq :
    (column :: behind).find? (fun w => prefixes.any fun p => p.toList.isPrefixOf w) =
      some location := by
  have hlocation := location?_eq_some_iff.mpr hfound
  rw [location?, hparts.words_eq, List.find?_append] at hlocation
  have hevents : events.find? (fun w => prefixes.any fun p => p.toList.isPrefixOf w) = none := by
    refine List.find?_eq_none.mpr fun w hw hstart => ?_
    have hnot := (any_isPrefixOf_iff.mp hstart).not_isEventColumn hprefixes
    rw [hparts.events w hw] at hnot
    cases hnot
  rwa [hevents, Option.none_or] at hlocation

theorem Parts.location_eq (hcolumn : IsLocation prefixes column) : location = column := by
  have hfind := hparts.find?_eq hprefixes hfound
  have hstart := any_isPrefixOf_iff.mpr hcolumn
  simp only [List.find?_cons, hstart] at hfind
  exact (Option.some.inj hfind).symm

/-- Behind a location column outside the project the search goes on. -/
theorem Parts.exists_behind (hcolumn : ¬ IsLocation prefixes column) :
    ∃ before after, behind = before ++ location :: after ∧
      ∀ w ∈ before, ¬ IsLocation prefixes w := by
  have hfind := hparts.find?_eq hprefixes hfound
  rw [← any_isPrefixOf_iff, Bool.not_eq_true] at hcolumn
  simp only [List.find?_cons, hcolumn] at hfind
  rw [List.find?_eq_some_iff_append] at hfind
  obtain ⟨-, before, after, hbehind, hbefore⟩ := hfind
  refine ⟨before, after, hbehind, fun w hw hstart => ?_⟩
  have hnot := hbefore w hw
  rw [any_isPrefixOf_iff.mpr hstart] at hnot
  cases hnot

theorem Parts.located_iff : Located columns location ↔ IsLocation prefixes column := by
  have hstart : IsLocation prefixes location := by
    obtain ⟨before, after, -, hstart, -⟩ := hfound
    exact hstart
  constructor
  · intro hlocated
    rw [← hparts.eq_of_located (hstart.not_isEventColumn hprefixes) hlocated]
    exact hstart
  · intro hcolumn
    rw [hparts.location_eq hprefixes hfound hcolumn]
    exact ⟨events, behind, hparts.words_eq, hparts.events⟩

end Found

theorem exists_firstLocation_of_mem {w : List Char} (hw : w ∈ words columns)
    (h : IsLocation prefixes w) : ∃ location, FirstLocation prefixes columns location := by
  obtain ⟨location, hlocation⟩ := Option.ne_none_iff_exists'.mp fun hnone =>
    location?_eq_none_iff.mp hnone w hw h
  exact ⟨location, location?_eq_some_iff.mp hlocation⟩

/-- Every line that is kept has a location column, and its location is found there or behind it. -/
theorem exists_parts_of_parse (hprefixes : ∀ p ∈ prefixes, '/' ∈ p.toList) {s : List Char}
    {l : CostLine} (h : CostLine.parse prefixes s = .ok (some l)) :
    ∃ (r : Reading) (events : List (List Char)) (column : List Char) (behind : List (List Char)),
      r.Wins s ∧ Parts r.columns events column behind ∧
        FirstLocation prefixes r.columns l.location.toList := by
  obtain ⟨r, location, hr, hlocation⟩ := exists_wins_of_parse (by rw [h]; simp)
  rw [parse_of_wins hr hlocation] at h
  split at h
  · cases h
  · cases h
    obtain ⟨before, after, hwords, hstart, -⟩ := id hlocation
    have hword : location ∈ words r.columns := by
      rw [hwords]
      simp
    obtain ⟨events, column, behind, hparts⟩ :=
      exists_parts hword (hstart.not_isEventColumn hprefixes)
    refine ⟨r, events, column, behind, hr, hparts, ?_⟩
    rwa [String.toList_ofList]

end HotPath.Report

namespace HotPath

open Text Report

/-- **Where a line is located.** A line is kept or refused for its length if any word of its columns
starts like a location of the project, and nothing is kept otherwise. The location that is read has
only event columns in front of it exactly if the location column lies in the project; then it is the
location column. Otherwise it is the first word behind the location column that starts like a
location of the project. -/
theorem location_iff {c : Config} {prefixes : List String} (h : c.prefixes = .ok prefixes)
    (s : List Char) :
    (CostLine.parse prefixes s = .ok none ↔
      ∀ r : Reading, r.Wins s → ∀ w ∈ words r.columns, ¬ IsLocation prefixes w) ∧
    ∀ l, CostLine.parse prefixes s = .ok (some l) →
      ∃ (r : Reading) (events : List (List Char)) (column : List Char) (behind : List (List Char)),
      r.Wins s ∧ Parts r.columns events column behind ∧
      (Located r.columns l.location.toList ↔ IsLocation prefixes column) ∧
      (IsLocation prefixes column → l.location.toList = column) ∧
      (¬ IsLocation prefixes column → ∃ before after,
        behind = before ++ l.location.toList :: after ∧
          IsLocation prefixes l.location.toList ∧ ∀ w ∈ before, ¬ IsLocation prefixes w) := by
  have hslash := slash_mem_prefixes h
  constructor
  · rw [parse_eq_none_iff]
    constructor
    · intro hno r hr w hw hstart
      obtain ⟨location, hlocation⟩ := exists_firstLocation_of_mem hw hstart
      exact hno r hr location hlocation
    · rintro hno r hr location ⟨before, after, hwords, hstart, -⟩
      exact hno r hr location (by rw [hwords]; simp) hstart
  · intro l hl
    obtain ⟨r, events, column, behind, hr, hparts, hlocation⟩ := exists_parts_of_parse hslash hl
    refine ⟨r, events, column, behind, hr, hparts, hparts.located_iff hslash hlocation,
      hparts.location_eq hslash hlocation, fun hcolumn => ?_⟩
    obtain ⟨before, after, hbehind, hbefore⟩ := hparts.exists_behind hslash hlocation hcolumn
    obtain ⟨-, -, -, hstart, -⟩ := hlocation
    exact ⟨before, after, hbehind, hstart, hbefore⟩

/-! ## A line of quoted source -/

/-- How locations of the project at `/p` start. -/
def locationStarts : List String := ["src/", "./src/", "/p/src/"]

/-- A line of source with two event columns in front of it. -/
def quotedSource : List Char := "5  3  fn main() \x7b // src/main.rs".toList

/-- What is read from it. -/
def quotedCost : CostLine := ⟨5, none, "src/main.rs", "5  3  fn main() \x7b // src/main.rs"⟩

theorem prefixes_locationStarts : (defaultsIn "p").prefixes = .ok locationStarts := by
  decide +kernel

theorem parse_quotedSource :
    CostLine.parse locationStarts quotedSource = .ok (some quotedCost) := by
  decide +kernel

theorem location_quotedSource :
    (defaultsIn "p").prefixes = .ok locationStarts ∧
    ∃ (r : Reading) (events : List (List Char)) (column : List Char) (behind : List (List Char)),
      r.Wins quotedSource ∧ Parts r.columns events column behind ∧
      (Located r.columns quotedCost.location.toList ↔ IsLocation locationStarts column) := by
  obtain ⟨r, events, column, behind, hr, hparts, hlocated, -⟩ :=
    (location_iff prefixes_locationStarts quotedSource).2 quotedCost parse_quotedSource
  exact ⟨prefixes_locationStarts, r, events, column, behind, hr, hparts, hlocated⟩

/-- The words behind the cost of the line. -/
theorem columns_quotedSource {r : Reading} (hr : r.Wins quotedSource) :
    r.columns = "3  fn main() \x7b // src/main.rs".toList := by
  obtain ⟨hof, hafter⟩ := Reading.wins_iff.mp hr
  have hcost : cost? quotedSource =
      some (['5'], "  3  fn main() \x7b // src/main.rs".toList) := by decide +kernel
  have hcolumns : afterCost? "  3  fn main() \x7b // src/main.rs".toList =
      some (none, "3  fn main() \x7b // src/main.rs".toList) := by decide +kernel
  have hrest := hof.cost?_eq.symm.trans hcost
  simp only [Option.some.injEq, Prod.mk.injEq] at hrest
  rw [hrest.2, hcolumns] at hafter
  simp only [Option.some.injEq, Prod.mk.injEq] at hafter
  exact hafter.2.symm

/-- A line is kept for a file that is only mentioned in the source that it quotes. -/
theorem not_forall_located :
    ¬ ∀ (c : Config) (prefixes : List String) (s : List Char) (l : CostLine) (r : Reading),
      c.prefixes = .ok prefixes → CostLine.parse prefixes s = .ok (some l) → r.Wins s →
        Located r.columns l.location.toList := by
  intro h
  obtain ⟨r, -, -, -, hr, -, -⟩ := exists_parts_of_parse
    (slash_mem_prefixes prefixes_locationStarts) parse_quotedSource
  have hlocated := h _ _ _ _ r prefixes_locationStarts parse_quotedSource hr
  have hparts : Parts r.columns [['3']] ['f', 'n']
      ["main()".toList, ['{'], ['/', '/'], "src/main.rs".toList] := by
    rw [columns_quotedSource hr]
    exact ⟨by decide +kernel, by decide, by decide⟩
  have hname := hparts.eq_of_located (not_isEventColumn_of_mem (by decide)) hlocated
  revert hname
  decide

end HotPath
