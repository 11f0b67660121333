import HotPath.FileSystem.Edit
import HotPath.Proofs.Report.Acceptance
import HotPath.Proofs.SourceDir
import HotPath.Proofs.Text.Numerals

/-!
# Lines that are kept

A report attributes a cost to a location. The line is kept if the directory in front of the file has
no blanks; otherwise the location is cut at them, and the line is kept only if one of its words
still starts like a location of the project (`keeps_iff`).
-/

namespace HotPath.Report

open Text FileSystem

/-- The line that attributes a cost to a location. -/
def attribution (cost : Nat) (location : String) : String :=
  .ofList (digitsOfNat cost ++ ' ' :: location.toList)

/-! ## Shares hold no locations -/

theorem not_slash_of_isDigit {c : Char} (h : isDigit c = true) : c ≠ '/' := by
  rintro rfl
  revert h
  decide

theorem not_slash_of_isBlank {c : Char} (h : isBlank c = true) : c ≠ '/' := by
  rintro rfl
  revert h
  decide

theorem IsPercentage.not_slash {d : DecimalText} {s : List Char} (h : IsPercentage d s) :
    '/' ∉ s := by
  intro hs
  cases h with
  | whole hw =>
    simp only [List.mem_append, List.mem_singleton] at hs
    rcases hs with hs | hs
    · exact not_slash_of_isDigit (hw.2 _ hs) rfl
    · cases hs
  | fraction hw hf =>
    simp only [List.mem_append, List.mem_cons, List.not_mem_nil, or_false] at hs
    rcases hs with hs | hs | hs | hs
    · exact not_slash_of_isDigit (hw.2 _ hs) rfl
    · cases hs
    · exact not_slash_of_isDigit (hf.2 _ hs) rfl
    · cases hs

theorem IsShareEnd.not_slash {s : List Char} (h : IsShareEnd s) : '/' ∉ s := by
  intro hs
  cases h with
  | closing => simp at hs
  | cumulative hi hp =>
    simp only [List.mem_append, List.mem_cons, List.not_mem_nil, or_false] at hs
    rcases hs with hs | hs | hs | hs
    · cases hs
    · exact not_slash_of_isBlank (hi _ hs) rfl
    · exact hp.not_slash hs
    · cases hs

theorem IsShare.not_slash {percent : Option DecimalText} {s : List Char}
    (h : IsShare percent s) : '/' ∉ s := by
  intro hs
  cases h with
  | missing => simp at hs
  | given hb _ hbracket =>
    cases hbracket with
    | mk hi hp he =>
      simp only [List.mem_append, List.mem_cons] at hs
      rcases hs with hs | hs | hs | hs | hs
      · exact not_slash_of_isBlank (hb _ hs) rfl
      · cases hs
      · exact not_slash_of_isBlank (hi _ hs) rfl
      · exact hp.not_slash hs
      · exact he.not_slash hs

/-- The words behind a cost are those of its share and those of the columns. -/
theorem words_of_afterCost? {s columns : List Char} {percent : Option DecimalText}
    (h : afterCost? s = some (percent, columns)) :
    ∃ share, IsShare percent share ∧ columns ≠ [] ∧ Stops isBlank columns ∧
      words s = words share ++ words columns := by
  obtain ⟨share, t, hshare, ht, rfl⟩ := exists_of_afterCost? h
  obtain ⟨g, z, hg, hne, hcolumns, hz, rfl⟩ := columns?_eq_some_iff.mp ht
  refine ⟨share, hshare, hcolumns.1, hcolumns.2.1, ?_⟩
  rw [words_append_gap share hne hg]
  congr 1
  rcases hz with rfl | rfl
  · rw [List.append_nil]
  · rw [words_append_blank columns [] (by decide), words_nil, List.append_nil]

/-! ## Lines with a cost and a location -/

/-- Behind a cost, a text with a word and without line breaks gives columns. -/
theorem exists_afterCost? {s : List Char} (hword : ∃ c ∈ s, isBlank c = false)
    (hs : ∀ c ∈ s, isLineBreak c = false) :
    ∃ percent columns, afterCost? (' ' :: s) = some (percent, columns) := by
  by_cases hshare : HasShare (' ' :: s)
  · obtain ⟨d, share, t, columns, hd, ht, heq⟩ := hshare
    exact ⟨some d, columns, by rw [heq, afterCost?_of_share hd ht]⟩
  · have hcut := List.takeWhile_append_dropWhile (p := isBlank) (l := s)
    have hgap := all_takeWhile isBlank s
    have hcolumns : columns? (' ' :: s) = some (s.dropWhile isBlank) := by
      refine columns?_eq_some_iff.mpr ⟨' ' :: s.takeWhile isBlank, [], ?_, by simp, ⟨?_, ?_, ?_⟩,
        .inl rfl, ?_⟩
      · intro c hc
        rcases List.mem_cons.mp hc with rfl | hc
        · decide
        · exact hgap c hc
      · intro hnil
        obtain ⟨c, hc, hblank⟩ := hword
        rw [hnil, List.append_nil] at hcut
        rw [← hcut] at hc
        rw [hgap c hc] at hblank
        cases hblank
      · exact stops_dropWhile isBlank s
      · intro hnewline
        have := hs '\n' ((List.dropWhile_suffix isBlank).subset hnewline)
        revert this
        decide
      · rw [List.append_nil, List.cons_append, hcut]
    exact ⟨none, _, afterCost?_of_not_hasShare hshare hcolumns⟩

theorem isNumeral_digitsOfNat (n : Nat) : IsNumeral (digitsOfNat n) :=
  ⟨digitsOfNat_ne_nil n, fun _ => isDigit_of_mem_digitsOfNat⟩

theorem IsNumeral.isCost {s : List Char} (h : IsNumeral s) : IsCost s := by
  obtain ⟨hne, hdigit⟩ := h
  obtain ⟨d, more, rfl⟩ := List.exists_cons_of_ne_nil hne
  exact ⟨d, more, rfl, hdigit d List.mem_cons_self,
    fun c hc => .inl (hdigit c (List.mem_cons_of_mem d hc))⟩

theorem isCost_digitsOfNat (n : Nat) : IsCost (digitsOfNat n) := (isNumeral_digitsOfNat n).isCost

theorem location?_eq_none_iff {prefixes : List String} {columns : List Char} :
    location? prefixes columns = none ↔ ∀ w ∈ words columns, ¬ IsLocation prefixes w := by
  rw [location?, List.find?_eq_none]
  simp only [any_isPrefixOf_iff]

variable {prefixes : List String} {n : Nat} {s : List Char}

theorem cost?_of_isCost {ds : List Char} (hds : IsCost ds) (s : List Char) :
    cost? (ds ++ ' ' :: s) = some (ds, ' ' :: s) := by
  have h := cost?_append (m := []) (i := []) (t := ' ' :: s) (.inl rfl) (by simp [IsGap]) hds
    (stops_cons.mpr (by decide))
  simpa using h

/-- The words behind a cost are those of a share and those of the columns, where the location is
looked for. -/
theorem exists_reading?_of_isCost (prefixes : List String) {ds : List Char} (hds : IsCost ds)
    (hword : ∃ c ∈ s, isBlank c = false) (hs : ∀ c ∈ s, isLineBreak c = false) :
    ∃ percent share columns, IsShare percent share ∧ words columns ≠ [] ∧
      words s = words share ++ words columns ∧
      reading? prefixes (ds ++ ' ' :: s) =
        (location? prefixes columns).map fun w => (ds, percent, w) := by
  obtain ⟨percent, columns, hafter⟩ := exists_afterCost? hword hs
  obtain ⟨share, hshare, hne, hstops, hwords⟩ := words_of_afterCost? hafter
  rw [words_cons_blank (by decide)] at hwords
  refine ⟨percent, share, columns, hshare, ?_, hwords, ?_⟩
  · obtain ⟨c, columns, rfl⟩ := List.exists_cons_of_ne_nil hne
    exact words_ne_nil (stops_cons.mp hstops) columns
  · simp only [reading?, cost?_of_isCost hds, hafter, Option.bind_eq_bind, Option.bind_some]
    cases location? prefixes columns with
    | some w => rfl
    | none => rfl

/-- A location without blanks is the location of its line, even if it looks like a share. -/
theorem reading?_of_clean {ds : List Char} (hds : IsCost ds)
    (hclean : ∀ c ∈ s, isBlank c = false) (hs : IsLocation prefixes s) (hne : s ≠ []) :
    reading? prefixes (ds ++ ' ' :: s) = some (ds, none, s) := by
  obtain ⟨c, hc⟩ := List.exists_mem_of_ne_nil s hne
  obtain ⟨percent, share, columns, hshare, hcolumns, hwords, hread⟩ :=
    exists_reading?_of_isCost prefixes hds ⟨c, hc, hclean c hc⟩
      fun c hc => isLineBreak_of_not_isBlank (hclean c hc)
  rw [words_eq_singleton hne hclean] at hwords
  obtain ⟨hnil, hsingle⟩ : words share = [] ∧ words columns = [s] := by
    rcases List.append_eq_singleton_iff.mp hwords.symm with h | ⟨-, h⟩
    · exact h
    · exact absurd h hcolumns
  have hpercent : percent = none := by
    cases hshare with
    | missing => rfl
    | given hb _ hbracket =>
      cases hbracket with
      | mk =>
        rw [words_gap_append hb] at hnil
        exact absurd hnil (words_ne_nil (by decide) _)
  have hloc : location? prefixes columns = some s :=
    location?_eq_some_iff.mpr ⟨[], [], hsingle, hs, by simp⟩
  rw [hread, hloc, hpercent]
  rfl

theorem parse_of_reading? {t location : List Char} {percent : Option DecimalText}
    (hn : (digitsOfNat n).length ≤ maxDigits)
    (h : reading? prefixes t = some (digitsOfNat n, percent, location)) :
    CostLine.parse prefixes t =
      .ok (some ⟨n, percent.map (·.value), .ofList location, .ofList (trimRight t)⟩) := by
  rw [CostLine.parse, h]
  dsimp only
  rw [filter_comma_of_isDigit (isNumeral_digitsOfNat n).2, if_neg (by omega),
    natOfDigits_digitsOfNat]

/-- How an annotated location is read: with the annotated cost and at one of its words, if one of
them is a location. -/
theorem parse_attribution (hprefixes : ∀ p ∈ prefixes, '/' ∈ p.toList)
    (hn : (digitsOfNat n).length ≤ maxDigits) (hslash : '/' ∈ s)
    (hs : ∀ c ∈ s, isLineBreak c = false) :
    (∃ percent location, location ∈ words s ∧ IsLocation prefixes location ∧
      CostLine.parse prefixes (digitsOfNat n ++ ' ' :: s) =
        .ok (some ⟨n, percent, .ofList location, .ofList (trimRight (digitsOfNat n ++ ' ' :: s))⟩)) ∨
    CostLine.parse prefixes (digitsOfNat n ++ ' ' :: s) = .ok none ∧
      ∀ w ∈ words s, ¬ IsLocation prefixes w := by
  obtain ⟨percent, share, columns, hshare, -, hwords, hread⟩ :=
    exists_reading?_of_isCost prefixes (isCost_digitsOfNat n) ⟨'/', hslash, by decide⟩ hs
  cases hloc : location? prefixes columns with
  | some location =>
    rw [hloc] at hread
    obtain ⟨before, after, hbefore, hstart, -⟩ := location?_eq_some_iff.mp hloc
    refine .inl ⟨percent.map (·.value), location, ?_, hstart, parse_of_reading? hn hread⟩
    rw [hwords, hbefore]
    simp
  | none =>
    rw [hloc] at hread
    refine .inr ⟨by rw [CostLine.parse, hread]; rfl, fun w hw hw' => ?_⟩
    rw [hwords] at hw
    rcases List.mem_append.mp hw with hw | hw
    · obtain ⟨p, hp, hpw⟩ := hw'
      exact hshare.not_slash (mem_of_mem_words hw _ (hpw.subset (hprefixes p hp)))
    · exact location?_eq_none_iff.mp hloc w hw hw'

/-- A cost in front of a location without blanks is read with this location and without a share,
if it does not have too many digits. -/
theorem parse_of_clean {ds : List Char} (hds : IsCost ds) (hclean : ∀ c ∈ s, isBlank c = false)
    (hs : IsLocation prefixes s) (hne : s ≠ []) :
    CostLine.parse prefixes (ds ++ ' ' :: s) =
      if maxDigits < (ds.filter (· ≠ ',')).length then
        .error (.tooManyDigits (ds.filter (· ≠ ',')).length)
      else .ok (some ⟨natOfDigits (ds.filter (· ≠ ',')), none, .ofList s,
        .ofList (ds ++ ' ' :: s)⟩) := by
  have htrim : trimRight (ds ++ ' ' :: s) = ds ++ ' ' :: s := by
    refine trimRight_eq_self fun c hc => ?_
    rw [List.getLast?_append_of_ne_nil _ (by simp), List.getLast?_cons_of_ne_nil hne] at hc
    exact hclean c (List.mem_of_mem_getLast? hc)
  rw [CostLine.parse, reading?_of_clean hds hclean hs hne, htrim]
  rfl

theorem parse_attribution_clean (hn : (digitsOfNat n).length ≤ maxDigits)
    (hclean : ∀ c ∈ s, isBlank c = false) (hs : IsLocation prefixes s) (hne : s ≠ []) :
    CostLine.parse prefixes (digitsOfNat n ++ ' ' :: s) =
      .ok (some ⟨n, none, .ofList s, .ofList (digitsOfNat n ++ ' ' :: s)⟩) := by
  rw [parse_of_clean (isCost_digitsOfNat n) hclean hs hne,
    filter_comma_of_isDigit (isNumeral_digitsOfNat n).2, if_neg (by omega),
    natOfDigits_digitsOfNat]

end HotPath.Report

namespace HotPath

open Text FileSystem Report

/-! ## The lines of a project -/

/-- How the source directory of a project is spelled in locations. -/
def Config.sourceSpellings (c : Config) : List String :=
  [c.sourceDir, "./" ++ c.sourceDir, (c.workDir.join c.sourceDir).text]

/-- The line that attributes a cost to a location is kept as a line of the project. -/
def Config.Keeps (c : Config) (cost : Nat) (location : String) : Prop :=
  ∃ prefixes lines, c.prefixes = .ok prefixes ∧
    CostLine.ofText prefixes (attribution cost location) = .ok lines ∧
    ∃ l ∈ lines, l.cost = cost ∧ l.text = attribution cost location

theorem slash_mem_prefixes {c : Config} {prefixes : List String} (h : c.prefixes = .ok prefixes) :
    ∀ p ∈ prefixes, '/' ∈ p.toList := by
  obtain ⟨plain, -, hplain⟩ := bind_eq_ok_iff.mp h
  cases hplain
  simp

/-- Without blanks the source directory is spelled as the prefixes of its locations spell it. -/
theorem exists_prefixes {c : Config} (hc : IsPlain c.sourceDir) {d : String}
    (hd : d ∈ c.sourceSpellings) (hclean : ∀ x ∈ d.toList, isBlank x = false) :
    ∃ prefixes, c.prefixes = .ok prefixes ∧ d ++ "/" ∈ prefixes := by
  obtain ⟨front, hfront⟩ := text_join_plain c.workDir hc
  have hsource : ∀ x ∈ c.sourceDir.toList, isBlank x = false := by
    intro x hx
    refine hclean x ?_
    simp only [Config.sourceSpellings, List.mem_cons, List.not_mem_nil, or_false] at hd
    rcases hd with rfl | rfl | rfl
    · exact hx
    · simp [hx]
    · simp [hfront, hx]
  refine ⟨_, by rw [Config.prefixes, locationPrefixes, plainSourceDir_self hc hsource]; rfl, ?_⟩
  simp only [Config.sourceSpellings, List.mem_cons, List.not_mem_nil, or_false] at hd
  rcases hd with rfl | rfl | rfl <;> simp

section Attributions

variable {prefixes : List String} {n : Nat} {location : String}

theorem ofText_eq_ok_iff {text : String} {kept : List CostLine} :
    CostLine.ofText prefixes text = .ok kept ↔
      ∃ parsed, List.Forall₂ (fun s l => CostLine.parse prefixes s = .ok l) (lines text.toList)
        parsed ∧ parsed.filterMap id = kept := by
  rw [CostLine.ofText, bind_eq_ok_iff]
  simp only [mapM_eq_ok_iff, pure, Except.pure, Except.ok.injEq]

theorem exists_parse_of_mem {text : String} {kept : List CostLine}
    (h : CostLine.ofText prefixes text = .ok kept) {l : CostLine} (hl : l ∈ kept) :
    ∃ s ∈ lines text.toList, CostLine.parse prefixes s = .ok (some l) := by
  obtain ⟨parsed, hparsed, rfl⟩ := ofText_eq_ok_iff.mp h
  obtain ⟨o, ho, rfl⟩ := List.mem_filterMap.mp hl
  exact exists_of_forall₂_mem hparsed ho

theorem ofText_attribution {l : Option CostLine}
    (hline : ∀ x ∈ location.toList, isLineBreak x = false)
    (h : CostLine.parse prefixes (attribution n location).toList = .ok l) :
    CostLine.ofText prefixes (attribution n location) = .ok l.toList := by
  have hlines : lines (attribution n location).toList = [(attribution n location).toList] := by
    refine lines_eq_singleton (by simp [attribution]) fun x hx => ?_
    simp only [attribution, String.toList_ofList, List.mem_append, List.mem_cons] at hx
    rcases hx with hx | rfl | hx
    · exact isLineBreak_of_not_isBlank (isBlank_of_isDigit (isDigit_of_mem_digitsOfNat hx))
    · decide
    · exact hline x hx
  refine ofText_eq_ok_iff.mpr ⟨[l], ?_, ?_⟩
  · rw [hlines]
    exact .cons h .nil
  · cases l <;> rfl

theorem attribution_toList (n : Nat) (location : String) :
    (attribution n location).toList = digitsOfNat n ++ ' ' :: location.toList :=
  String.toList_ofList

/-- A kept location is a word, and a kept line is a line that ends with no blank. -/
theorem exists_of_parse {s : List Char} {l : CostLine}
    (h : CostLine.parse prefixes s = .ok (some l)) :
    l.text = .ofList (trimRight s) ∧ ∀ x ∈ l.location.toList, isBlank x = false := by
  unfold CostLine.parse at h
  split at h
  · cases h
  · rename_i cost percent w hread
    obtain ⟨r, -, -, -, before, after, hwords, -⟩ := reading?_eq_some_iff.mp hread
    dsimp only at h
    split at h
    · cases h
    · cases h
      refine ⟨rfl, fun x hx => ?_⟩
      rw [String.toList_ofList] at hx
      exact not_isBlank_of_mem_words (by rw [hwords]; simp) x hx

theorem keeps_iff_exists_word {c : Config} (hn : (digitsOfNat n).length ≤ maxDigits)
    (hslash : '/' ∈ location.toList)
    (hlast : trimRight (attribution n location).toList = (attribution n location).toList) :
    c.Keeps n location ↔
      (∀ x ∈ location.toList, isLineBreak x = false) ∧
        ∃ prefixes, c.prefixes = .ok prefixes ∧
          ∃ w ∈ words location.toList, IsLocation prefixes w := by
  constructor
  · rintro ⟨prefixes, kept, hprefixes, hkept, l, hl, -, htext⟩
    obtain ⟨s, hs, hparse⟩ := exists_parse_of_mem hkept hl
    obtain ⟨htrim, -⟩ := exists_of_parse hparse
    have hline : ∀ x ∈ location.toList, isLineBreak x = false := by
      intro x hx
      refine not_isLineBreak_of_mem_lines hs x (mem_of_mem_trimRight ?_)
      rw [← String.toList_ofList (l := trimRight s), ← htrim, htext, attribution_toList]
      simp [hx]
    have hall := slash_mem_prefixes hprefixes
    rcases parse_attribution hall hn hslash hline with ⟨_, w, hw, hstart, -⟩ | ⟨hnone, -⟩
    · exact ⟨hline, prefixes, hprefixes, w, hw, hstart⟩
    · rw [← attribution_toList] at hnone
      rw [ofText_attribution hline hnone] at hkept
      cases hkept
      cases hl
  · rintro ⟨hline, prefixes, hprefixes, w, hw, hstart⟩
    have hall := slash_mem_prefixes hprefixes
    rcases parse_attribution hall hn hslash hline with ⟨percent, w, -, -, hsome⟩ | ⟨-, hno⟩
    · rw [← attribution_toList] at hsome
      refine ⟨prefixes, _, hprefixes, ofText_attribution hline hsome, _, List.mem_singleton_self _,
        rfl, ?_⟩
      dsimp only
      rw [hlast, String.ofList_toList]
    · exact absurd hstart (hno w hw)

theorem ofText_attribution_clean (hn : (digitsOfNat n).length ≤ maxDigits)
    (hclean : ∀ x ∈ location.toList, isBlank x = false) (hslash : '/' ∈ location.toList)
    (hstart : IsLocation prefixes location.toList) :
    CostLine.ofText prefixes (attribution n location) =
      .ok [⟨n, none, location, attribution n location⟩] := by
  have hparse := parse_attribution_clean hn hclean hstart (List.ne_nil_of_mem hslash)
  rw [← attribution_toList] at hparse
  rw [ofText_attribution (fun x hx => isLineBreak_of_not_isBlank (hclean x hx)) hparse]
  simp only [String.ofList_toList]
  rfl

end Attributions

variable {v : View} {e : Environment} {vars : Variables} {r : Request} {c : Config} {n : Nat}
  {d f : String}

/-- **Which lines of a project are kept.** The directory `d` in front of the file `f` is a spelling
of the source directory of a loaded configuration, and the file has no blanks. The line of the cost
`n` at this location is kept exactly if the location has no line breaks and one of its words starts
like a location of the project. If `d` has no blanks, this is so, and the line gives its cost at the
whole location. If `d` has a blank, no line is kept at this location. -/
theorem keeps_iff (h : Config.load v e vars r = .ok c) (hn : (digitsOfNat n).length ≤ maxDigits)
    (hne : f ≠ "") (hf : ∀ x ∈ f.toList, isBlank x = false) (hd : d ∈ c.sourceSpellings) :
    let location := d ++ "/" ++ f
    (c.Keeps n location ↔
      (∀ x ∈ location.toList, isLineBreak x = false) ∧
        ∃ prefixes, c.prefixes = .ok prefixes ∧
          ∃ w ∈ words location.toList, IsLocation prefixes w) ∧
    ((∀ x ∈ d.toList, isBlank x = false) →
      c.Keeps n location ∧ ∃ prefixes, c.prefixes = .ok prefixes ∧
        CostLine.ofText prefixes (attribution n location) =
          .ok [⟨n, none, location, attribution n location⟩]) ∧
    ((∃ x ∈ d.toList, isBlank x = true) → ∀ prefixes kept, c.prefixes = .ok prefixes →
      CostLine.ofText prefixes (attribution n location) = .ok kept →
        ∀ l ∈ kept, l.location ≠ location) := by
  intro location
  have hslash : '/' ∈ location.toList := by simp [location]
  have hlast : trimRight (attribution n location).toList = (attribution n location).toList := by
    refine trimRight_eq_self fun x hx => hf x ?_
    have hne' : f.toList ≠ [] := by simpa using hne
    simp only [attribution_toList, location, String.toList_append] at hx
    rw [List.getLast?_append_of_ne_nil _ (by simp), List.getLast?_cons_of_ne_nil (by simp),
      List.getLast?_append_of_ne_nil _ hne'] at hx
    exact List.mem_of_mem_getLast? hx
  refine ⟨keeps_iff_exists_word hn hslash hlast, fun hclean => ?_, ?_⟩
  · obtain ⟨prefixes, hprefixes, hmem⟩ := exists_prefixes (sourceDir_of_load h) hd hclean
    have hlocation : ∀ x ∈ location.toList, isBlank x = false := by
      intro x hx
      simp only [location, String.toList_append, List.mem_append] at hx
      rcases hx with (hx | hx) | hx
      · exact hclean x hx
      · rw [List.mem_singleton.mp hx]
        decide
      · exact hf x hx
    have hstart : IsLocation prefixes location.toList := by
      refine ⟨_, hmem, f.toList, ?_⟩
      simp [location]
    have hkept := ofText_attribution_clean hn hlocation hslash hstart
    exact ⟨⟨prefixes, _, hprefixes, hkept, _, List.mem_singleton_self _, rfl, rfl⟩,
      prefixes, hprefixes, hkept⟩
  · rintro ⟨x, hx, hblank⟩ prefixes kept - hkept l hl heq
    obtain ⟨s, -, hparse⟩ := exists_parse_of_mem hkept hl
    have hclean := (exists_of_parse hparse).2 x (by rw [heq]; simp [location, hx])
    rw [hclean] at hblank
    cases hblank

/-- The files where nothing but one directory is below the top. -/
def loneDirectory (name : String) : View := .ofEntries [([name], .directory)] []

/-- The defaults for a program in a directory below the top. -/
def defaultsIn (name : String) : Config :=
  { workDir := ⟨.slash, [name]⟩, binary := "p", tools := chooseTools (fun _ => none) [] }

theorem keeps_file_of_project :
    Config.load (loneDirectory "p") ⟨[], [], none⟩ []
        { workDir := .value "/p", binary := .value "p" } = .ok (defaultsIn "p") ∧
    (defaultsIn "p").Keeps 5 "/p/src/a.rs" := by
  have hload : Config.load (loneDirectory "p") ⟨[], [], none⟩ []
      { workDir := .value "/p", binary := .value "p" } = .ok (defaultsIn "p") := by
    cbv
  have hclean : ∀ x ∈ "/p/src".toList, isBlank x = false := by simp [isBlank]
  exact ⟨hload, ((keeps_iff (n := 5) (d := "/p/src") (f := "a.rs") hload (by decide)
    (by decide) (by simp [isBlank]) (by decide +kernel)).2.1 hclean).1⟩

/-- In a directory whose name has a blank, lines of the project are lost. -/
theorem not_forall_keeps :
    ¬ ∀ (v : View) (e : Environment) (vars : Variables) (r : Request) (c : Config) (n : Nat)
        (d f : String), Config.load v e vars r = .ok c → (digitsOfNat n).length ≤ maxDigits →
      f ≠ "" → (∀ x ∈ f.toList, isBlank x = false) → d ∈ c.sourceSpellings →
        c.Keeps n (d ++ "/" ++ f) := by
  intro h
  have hload : Config.load (loneDirectory "a b") ⟨[], [], none⟩ []
      { workDir := .value "/a b", binary := .value "p" } = .ok (defaultsIn "a b") := by
    cbv
  obtain ⟨prefixes, kept, hprefixes, hkept, l, hl, -⟩ := h _ _ _ _ _ 5 "/a b/src" "a.rs" hload
    (by decide) (by decide) (by simp [isBlank]) (by decide +kernel)
  have hstarts : (defaultsIn "a b").prefixes = .ok ["src/", "./src/", "/a b/src/"] := by
    decide +kernel
  have hnone : CostLine.ofText ["src/", "./src/", "/a b/src/"]
      (attribution 5 ("/a b/src" ++ "/" ++ "a.rs")) = .ok [] := by
    decide +kernel
  rw [← Except.ok.inj (hstarts.symm.trans hprefixes), hnone] at hkept
  cases hkept
  cases hl

end HotPath
