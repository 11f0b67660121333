import HotPath.Proofs.Report.Locations
import HotPath.Proofs.Results
import HotPath.Proofs.Text.Grouping
import HotPath.Report.Format

/-!
# Costs that are written again

The cost of a line may be spelled with leading zeros, with commas anywhere behind its first digit
and with digits of any script. Written again, it is a numeral of ASCII digits in groups of three
that has no more digits than the cost had (`exists_length_le_of_parse`), so the limit that was kept
in reading is kept in writing, and every report on lines that were read can be made
(`exists_report`). In front of a word that is a location the numeral is a cost, whatever the word
looks like (`parse_groupedNat`). So what was read survives being written (`readsAgain_of_parse`).
-/

namespace HotPath.Report

open Text

variable {prefixes : List String}

/-! ## Numerals as costs -/

/-- A cost has a digit. -/
theorem IsCost.filter_comma_ne_nil {s : List Char} (h : IsCost s) :
    s.filter (· ≠ ',') ≠ [] := by
  obtain ⟨d, more, rfl, hd, -⟩ := h
  have hkept : [d].filter (· ≠ ',') = [d] := filter_comma_of_isDigit (by simpa using hd)
  rw [← List.singleton_append, List.filter_append, hkept]
  simp

theorem IsCost.append {s t : List Char} (hs : IsCost s) (ht : ∀ c ∈ t, isDigit c = true ∨ c = ',') :
    IsCost (s ++ t) := by
  obtain ⟨d, more, rfl, hd, hmore⟩ := hs
  exact ⟨d, more ++ t, rfl, hd, List.forall_mem_append.mpr ⟨hmore, ht⟩⟩

theorem isCost_of_isGrouping {ds s : List Char} (h : IsGrouping ds s)
    (hds : ∀ c ∈ ds, isDigit c = true) : IsCost s := by
  induction h with
  | single hne _ => exact IsNumeral.isCost ⟨hne, hds⟩
  | append _ _ ih =>
    obtain ⟨hhigher, hg⟩ := List.forall_mem_append.mp hds
    exact (ih hhigher).append (List.forall_mem_cons.mpr ⟨.inr rfl, fun c hc => .inl (hg c hc)⟩)

theorem isCost_groupedNat (n : Nat) : IsCost (groupedNat n) :=
  isCost_of_isGrouping (isGrouping_groupedNat n) fun _ => isDigit_of_mem_digitsOfNat

/-- A grouped numeral in front of a word that is a location is read as the number at this location,
if the number does not have too many digits. -/
theorem parse_groupedNat (n : Nat) {w : List Char} (hne : w ≠ [])
    (hclean : ∀ c ∈ w, isBlank c = false) (hw : IsLocation prefixes w) :
    CostLine.parse prefixes (groupedNat n ++ ' ' :: w) =
      if maxDigits < (digitsOfNat n).length then .error (.tooManyDigits (digitsOfNat n).length)
      else .ok (some ⟨n, none, .ofList w, .ofList (groupedNat n ++ ' ' :: w)⟩) := by
  rw [parse_of_clean (isCost_groupedNat n) hclean hw hne, filter_groupedNat,
    natOfDigits_digitsOfNat]

/-! ## Lines that were read -/

/-- The cost can be written in groups of three, and the line that shows it so in front of the
location is read with this cost, at this location and without a share. -/
def ReadsAgain (prefixes : List String) (cost : Int) (location : String) : Prop :=
  ∃ numeral, writeGrouped? cost = some numeral ∧
    CostLine.parse prefixes (numeral ++ ' ' :: location.toList) =
      .ok (some ⟨cost, none, location, .ofList (numeral ++ ' ' :: location.toList)⟩)

theorem readsAgain_of_length_le {n : Nat} {location : String}
    (hn : (digitsOfNat n).length ≤ maxDigits) (hne : location.toList ≠ [])
    (hclean : ∀ c ∈ location.toList, isBlank c = false)
    (hlocation : IsLocation prefixes location.toList) : ReadsAgain prefixes n location := by
  refine ⟨groupedNat n, writeGrouped?_natCast hn, ?_⟩
  rw [parse_groupedNat n hne hclean hlocation, if_neg (by omega), String.ofList_toList]

/-- A cost that was read is a number with no more digits than may be read. -/
theorem exists_length_le_of_parse {line : List Char} {l : CostLine}
    (h : CostLine.parse prefixes line = .ok (some l)) :
    ∃ n : Nat, l.cost = n ∧ (digitsOfNat n).length ≤ maxDigits ∧
      ∃ columns, FirstLocation prefixes columns l.location.toList := by
  obtain ⟨r, location, hr, hloc⟩ := exists_wins_of_parse (by rw [h]; simp)
  rw [parse_of_wins hr hloc] at h
  split at h
  · cases h
  · rename_i hlimit
    cases h
    have hlength := length_digitsOfNat_natOfDigits_le hr.1.1.cost.filter_comma_ne_nil
    refine ⟨_, rfl, hlength.trans (Nat.le_of_not_lt hlimit), r.columns, ?_⟩
    rw [String.toList_ofList]
    exact hloc

/-- The cells that show a line whose cost can be written. -/
def shownCells (l : CostLine) : List (List Char) :=
  [grouped l.cost, l.share, escapePipes l.location.toList]

theorem cells_of_parse {line : List Char} {l : CostLine}
    (h : CostLine.parse prefixes line = .ok (some l)) :
    writeGrouped? l.cost = some (grouped l.cost) ∧ cells l = .ok (shownCells l) := by
  obtain ⟨n, hcost, hlimit, -⟩ := exists_length_le_of_parse h
  have hwrite : writeGrouped? l.cost = some (grouped l.cost) :=
    writeGrouped?_of_within (hcost ▸ isBeyondLimit_natCast hlimit)
  exact ⟨hwrite, by rw [cells, hwrite, shownCells]⟩

theorem readsAgain_of_parse {line : List Char} {l : CostLine}
    (h : CostLine.parse prefixes line = .ok (some l)) : ReadsAgain prefixes l.cost l.location := by
  obtain ⟨n, hcost, hlimit, columns, before, after, hwords, hlocation, -⟩ :=
    exists_length_le_of_parse h
  have hword : l.location.toList ∈ words columns := by rw [hwords]; simp
  rw [hcost]
  exact readsAgain_of_length_le hlimit (ne_nil_of_mem_words hword)
    (not_isBlank_of_mem_words hword) hlocation

section Reports

variable {text : String} {kept ls : List CostLine} (h : CostLine.ofText prefixes text = .ok kept)
  (hls : ls ⊆ kept)

include h hls

theorem mapM_cells : ls.mapM cells = .ok (ls.map shownCells) := by
  rw [mapM_eq_ok_iff, List.forall₂_map_right_iff, List.forall₂_same]
  intro l hl
  obtain ⟨line, -, hparse⟩ := exists_parse_of_mem h (hls hl)
  exact (cells_of_parse hparse).2

/-- Lines that were read can be shown in every format. -/
theorem exists_report (f : Format) : ∃ shown, report f ls = .ok shown := by
  cases f with
  | text => exact ⟨_, rfl⟩
  | markdown =>
    rw [report, markdownReport, tableRows, mapM_cells h hls]
    split <;> exact ⟨_, rfl⟩

end Reports

/-- **Costs survive being written again.** The cost of every line that was read is a number of at
most 4300 digits, so it can be written, and a table shows it so; in front of the location of the
line it reads as this cost at this location, without a share. For every number of at most 4300
digits, its digits in groups of three are what is written, they read as the number, and they are a
cost in front of every location. -/
theorem costs_readAgain (prefixes : List String) :
    (∀ (line : List Char) (l : CostLine), CostLine.parse prefixes line = .ok (some l) →
      (∃ n : Nat, l.cost = n ∧ (digitsOfNat n).length ≤ 4300) ∧
      (∃ numeral, writeGrouped? l.cost = some numeral ∧
        cells l = .ok [numeral, l.share, escapePipes l.location.toList]) ∧
      ReadsAgain prefixes l.cost l.location) ∧
    ∀ n : Nat, (digitsOfNat n).length ≤ 4300 →
      (∃ numeral, writeGrouped? n = some numeral ∧ IsGrouping (digitsOfNat n) numeral ∧
        ungroup numeral = n) ∧
      ∀ location : String, location.toList ≠ [] → (∀ c ∈ location.toList, isBlank c = false) →
        IsLocation prefixes location.toList → ReadsAgain prefixes n location := by
  refine ⟨fun line l h => ?_, fun n hn => ⟨?_, ?_⟩⟩
  · obtain ⟨n, hcost, hlimit, -⟩ := exists_length_le_of_parse h
    exact ⟨⟨n, hcost, hlimit⟩, ⟨_, cells_of_parse h⟩, readsAgain_of_parse h⟩
  · exact ⟨groupedNat n, writeGrouped?_natCast hn, isGrouping_groupedNat n, ungroup_groupedNat n⟩
  · exact fun location hne hclean hlocation => readsAgain_of_length_le hn hne hclean hlocation

/-- A marker, leading zeros, digits of two scripts, commas side by side and a location that looks
like a share; and the same number in front of a location that starts like one. -/
theorem costs_readAgain_respelled :
    CostLine.parse ["("] "<\t0,01,2٣4,,567 (38.6%, 40%)\u2003(5%) 9\n".toList =
        .ok (some ⟨1234567, some (.ofDecimal false 386 (-1)), "(5%)",
          "<\t0,01,2٣4,,567 (38.6%, 40%)\u2003(5%) 9"⟩) ∧
      writeGrouped? 1234567 = some "1,234,567".toList ∧
      CostLine.parse ["("] "1,234,567 (5%)".toList =
        .ok (some ⟨1234567, none, "(5%)", "1,234,567 (5%)"⟩) ∧
      (digitsOfNat 1234567).length ≤ 4300 ∧
      IsGrouping (digitsOfNat 1234567) "1,234,567".toList ∧
      ungroup "1,234,567".toList = 1234567 ∧
      IsLocation ["("] "(2%,".toList ∧ ReadsAgain ["("] 1234567 "(2%," := by
  have hread : CostLine.parse ["("] "<\t0,01,2٣4,,567 (38.6%, 40%)\u2003(5%) 9\n".toList =
      .ok (some ⟨1234567, some (.ofDecimal false 386 (-1)), "(5%)",
        "<\t0,01,2٣4,,567 (38.6%, 40%)\u2003(5%) 9"⟩) := by
    decide +kernel
  have hwrite : writeGrouped? 1234567 = some "1,234,567".toList := by decide +kernel
  have hlimit : (digitsOfNat 1234567).length ≤ 4300 := by decide +kernel
  have hlocation : IsLocation ["("] "(2%,".toList := ⟨"(", by simp, by decide⟩
  obtain ⟨hlines, hnumbers⟩ := costs_readAgain ["("]
  obtain ⟨-, -, numeral, hnumeral, hagain⟩ := hlines _ _ hread
  obtain ⟨⟨numeral', hnumeral', hgroups, hvalue⟩, hagain'⟩ := hnumbers 1234567 hlimit
  obtain rfl := Option.some.inj (hnumeral.symm.trans hwrite)
  obtain rfl := Option.some.inj (hnumeral'.symm.trans hwrite)
  exact ⟨hread, hwrite, hagain, hlimit, hgroups, hvalue, hlocation,
    hagain' "(2%," (by decide) (by simp [isBlank]) hlocation⟩

end HotPath.Report
