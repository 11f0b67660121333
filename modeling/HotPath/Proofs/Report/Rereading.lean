import HotPath.Proofs.Report.Locations
import HotPath.Proofs.Report.Ranking
import HotPath.Proofs.Text.Utf8
import HotPath.Report.Summary

/-!
# Reports that are read again

A plain report shows its lines as they are, without the blanks at their end, so it can be read like
the annotations that it was made of. A line without the blanks at its end reads as the line itself
(`parse_text`), and texts with a line feed between them are read one after the other
(`ofText_append_newline`), bytes with a line feed between them too, whatever is malformed in them
(`ofText_decodeLenient_append`). So a plain report gives its lines back (`ofText_plainReport`), and
reports can be merged (`summary_append_newline`).
-/

namespace HotPath.Report

open Text

/-! ## Lines without the blanks at their end -/

theorem IsEnding.isGap {z : List Char} (h : IsEnding z) : IsGap z := by
  rcases h with rfl | rfl
  · simp [IsGap]
  · intro c hc
    rw [List.mem_singleton.mp hc]
    decide

theorem IsColumns.trimRight {s : List Char} (h : IsColumns s) : IsColumns (trimRight s) := by
  obtain ⟨hne, hstops, hnewline⟩ := h
  obtain ⟨c, s, rfl⟩ := List.exists_cons_of_ne_nil hne
  have hc := stops_cons.mp hstops
  obtain ⟨t, ht⟩ := exists_trimRight_cons hc s
  refine ⟨by simp [ht], ?_, fun hmem => hnewline (mem_of_mem_trimRight hmem)⟩
  rw [ht]
  exact stops_cons.mpr hc

namespace Reading

variable {r : Reading} {s : List Char}

/-- The reading of a line without the blanks at its end. -/
def trimmed (r : Reading) : Reading := { r with columns := trimRight r.columns, ending := [] }

theorem WellFormed.trimmed (h : r.WellFormed) : r.trimmed.WellFormed :=
  { h with columns := h.columns.trimRight, ending := .inl rfl }

/-- The parts of a line in front of its columns. -/
def front (r : Reading) : List Char := r.marker ++ (r.indent ++ (r.cost ++ (r.share ++ r.gap)))

theorem line_eq (r : Reading) : r.line = r.front ++ (r.columns ++ r.ending) := by
  simp [line, rest, front]

theorem WellFormed.line_trimmed (h : r.WellFormed) : r.trimmed.line = trimRight r.line := by
  have hcolumns : Text.trimRight (r.columns ++ r.ending) = Text.trimRight r.columns :=
    trimRight_append_gap r.columns h.ending.isGap
  rw [r.line_eq, trimRight_append r.front (by rw [hcolumns]; exact h.columns.trimRight.1), hcolumns,
    line_eq]
  simp [front, Reading.trimmed]

/-- Without the blanks at its end a line has the same winning reading, but for these blanks. -/
theorem Wins.trimmed (h : r.Wins s) : r.trimmed.Wins (trimRight s) := by
  obtain ⟨⟨hw, rfl⟩, hmax⟩ := h
  refine ⟨⟨hw.trimmed, hw.line_trimmed⟩, ?_⟩
  rintro hshare r' ⟨hw', hline⟩
  -- With the blanks behind it, any other reading of the trimmed line is one of the whole line.
  obtain ⟨g, -, hcut⟩ := exists_trimRight r.columns
  have hending : r'.ending = [] := by
    rcases hw'.ending with hnil | hnewline
    · exact hnil
    · have hlast := getLast_trimRight r.line '\n'
      rw [← hline, line_eq, hnewline, ← List.append_assoc] at hlast
      simp [isBlank] at hlast
  refine hmax hshare { r' with columns := r'.columns ++ g, ending := r.ending } ⟨?_, ?_⟩
  · refine { hw' with columns := ⟨by simp [hw'.columns.1], hw'.columns.stops g, ?_⟩,
                      ending := hw.ending }
    rw [List.mem_append, not_or]
    exact ⟨hw'.columns.2.2, fun hg => hw.columns.2.2 (by rw [hcut]; simp [hg])⟩
  · have htrimmed : r'.front ++ r'.columns = r.front ++ Text.trimRight r.columns := by
      rw [← hw.line_trimmed, line_eq, hending, List.append_nil, line_eq] at hline
      simpa [front, Reading.trimmed] using hline
    rw [line_eq, line_eq]
    calc r'.front ++ (r'.columns ++ g ++ r.ending)
        = r'.front ++ r'.columns ++ (g ++ r.ending) := by simp
      _ = r.front ++ (Text.trimRight r.columns ++ g ++ r.ending) := by rw [htrimmed]; simp
      _ = r.front ++ (r.columns ++ r.ending) := by rw [← hcut]

end Reading

variable {prefixes : List String} {l : CostLine} {kept : List CostLine}

theorem parse_trimRight {s : List Char} (h : CostLine.parse prefixes s = .ok (some l)) :
    CostLine.parse prefixes (trimRight s) = .ok (some l) := by
  obtain ⟨r, location, hr, hloc⟩ := exists_wins_of_parse (by rw [h]; simp)
  have hloc' : FirstLocation prefixes r.trimmed.columns location := by
    rw [FirstLocation, Reading.trimmed, words_trimRight]
    exact hloc
  rw [parse_of_wins hr.trimmed hloc', trimRight_trimRight, ← h, parse_of_wins hr hloc]
  rfl

/-- The text of a cost line reads as the line. -/
theorem parse_text {s : List Char} (h : CostLine.parse prefixes s = .ok (some l)) :
    CostLine.parse prefixes l.text.toList = .ok (some l) := by
  rw [(exists_of_parse h).1, String.toList_ofList]
  exact parse_trimRight h

/-! ## Texts in parts -/

/-- The cost lines among some lines. -/
def costLines (prefixes : List String) (ls : List (List Char)) : Except CostError (List CostLine) :=
  return (← ls.mapM (CostLine.parse prefixes)).filterMap id

theorem ofText_eq_costLines (prefixes : List String) (text : String) :
    CostLine.ofText prefixes text = costLines prefixes (lines text.toList) := rfl

theorem costLines_append (prefixes : List String) (ls ls' : List (List Char)) :
    costLines prefixes (ls ++ ls') =
      return (← costLines prefixes ls) ++ (← costLines prefixes ls') := by
  simp only [costLines, List.mapM_append, bind_assoc, pure_bind, List.filterMap_append]

theorem costLines_append_empty (prefixes : List String) (ls : List (List Char)) :
    costLines prefixes (ls ++ [[]]) = costLines prefixes ls := by
  have hempty : costLines prefixes [[]] = .ok [] := rfl
  rw [costLines_append, hempty]
  cases costLines prefixes ls with
  | error e => rfl
  | ok kept => exact congrArg Except.ok (List.append_nil kept)

/-- Texts with a line feed between them are read one after the other. -/
theorem ofText_append_newline (prefixes : List String) (s t : String) :
    CostLine.ofText prefixes (s ++ "\n" ++ t) =
      return (← CostLine.ofText prefixes s) ++ (← CostLine.ofText prefixes t) := by
  have hlist : (s ++ "\n" ++ t).toList = s.toList ++ '\n' :: t.toList := by simp
  rw [ofText_eq_costLines, hlist, lines_append_newline, costLines_append]
  rcases lines_append_lf s.toList with h | h
  · rw [h]
    rfl
  · rw [h, costLines_append_empty]
    rfl

/-- **Bytes in parts.** What is read in front of a line feed and what is read behind it are read
apart, or the first fault among them is the fault of the whole. -/
theorem ofText_decodeLenient_append (prefixes : List String) (before after : Bytes) :
    CostLine.ofText prefixes (.ofList (Utf8.decodeLenient (before ++ 0x0A :: after))) =
      return (← CostLine.ofText prefixes (.ofList (Utf8.decodeLenient before))) ++
        (← CostLine.ofText prefixes (.ofList (Utf8.decodeLenient after))) := by
  have hnewline : Char.ofNat (0x0A : UInt8).toNat = '\n' := by decide
  have hparts : String.ofList (Utf8.decodeLenient (before ++ 0x0A :: after)) =
      .ofList (Utf8.decodeLenient before) ++ "\n" ++ .ofList (Utf8.decodeLenient after) := by
    rw [Utf8.decodeLenient_append_cons (by decide), hnewline, ← String.toList_inj]
    simp
  rw [hparts, ofText_append_newline]

/-- A truncated sequence in front of the line feed, and a byte behind it that would continue it. -/
example : CostLine.ofText ["src/"] (.ofList (Utf8.decodeLenient
    (Utf8.encode "5 src/a:f " ++ [0xF0, 0x9F] ++ 0x0A :: (Utf8.encode "7 src/b:g " ++ [0x98])))) =
      .ok [⟨5, none, "src/a:f", "5 src/a:f \uFFFD"⟩, ⟨7, none, "src/b:g", "7 src/b:g \uFFFD"⟩] := by
  decide +kernel

/-! ## Plain reports -/

/-- The text of the line is a single line, and reads as the line. -/
structure ReadsBack (prefixes : List String) (l : CostLine) : Prop where
  parse : CostLine.parse prefixes l.text.toList = .ok (some l)
  single : ∀ c ∈ l.text.toList, isLineBreak c = false

theorem readsBack_of_mem {text : String} (h : CostLine.ofText prefixes text = .ok kept)
    (hl : l ∈ kept) : ReadsBack prefixes l := by
  obtain ⟨s, hs, hparse⟩ := exists_parse_of_mem h hl
  refine ⟨parse_text hparse, fun c hc => ?_⟩
  rw [(exists_of_parse hparse).1, String.toList_ofList] at hc
  exact not_isLineBreak_of_mem_lines hs c (mem_of_mem_trimRight hc)

theorem ReadsBack.text_ne_nil (h : ReadsBack prefixes l) : l.text.toList ≠ [] := by
  intro hnil
  have hparse := h.parse
  rw [hnil] at hparse
  cases hparse

/-- The lines of a plain report are the texts of the lines that it shows. -/
theorem lines_plainReport (h : ∀ l ∈ kept, ReadsBack prefixes l) :
    lines (plainReport kept).toList = kept.map (·.text.toList) := by
  have htoList : (plainReport kept).toList = ['\n'].intercalate (kept.map (·.text.toList)) := by
    rw [plainReport, String.toList_intercalate, List.map_map]
    rfl
  rw [htoList]
  apply lines_intercalate_lf
  · intro t ht
    obtain ⟨l, hl, rfl⟩ := List.mem_map.mp ht
    exact (h l hl).text_ne_nil
  · intro t ht
    obtain ⟨l, hl, rfl⟩ := List.mem_map.mp ht
    exact (h l hl).single

/-- A plain report gives its lines back. -/
theorem ofText_plainReport (h : ∀ l ∈ kept, ReadsBack prefixes l) :
    CostLine.ofText prefixes (plainReport kept) = .ok kept := by
  have hread : (kept.map (·.text.toList)).mapM (CostLine.parse prefixes) = .ok (kept.map some) := by
    rw [mapM_eq_ok_iff, List.forall₂_map_left_iff, List.forall₂_map_right_iff, List.forall₂_same]
    exact fun l hl => (h l hl).parse
  have hall : (kept.map some).filterMap id = kept := by
    rw [List.filterMap_map]
    exact List.filterMap_some
  rw [ofText_eq_costLines, lines_plainReport h, costLines, hread]
  exact congrArg Except.ok hall

/-- **A plain report shows its lines faithfully.** The lines that were read from a text, or any of
them in any order, can be shown, and what is shown splits into their texts and reads as these very
lines. -/
theorem render_text_readsBack {text : String} {shown : List CostLine}
    (h : CostLine.ofText prefixes text = .ok kept) (hshown : shown ⊆ kept) :
    ∃ report, render Format.text.name shown = .ok report ∧
      lines report.toList = shown.map (·.text.toList) ∧
      CostLine.ofText prefixes report = .ok shown := by
  have hback : ∀ l ∈ shown, ReadsBack prefixes l := fun l hl => readsBack_of_mem h (hshown hl)
  exact ⟨plainReport shown, rfl, lines_plainReport hback, ofText_plainReport hback⟩

/-- Two lines with blanks and other line breaks behind them, shown in another order. -/
theorem render_text_readsBack_reordered :
    CostLine.ofText ["src/"] "7 (1%) src/a:f \t\u2028< 5,0 src/b:g\x1c\x0b" =
        .ok [⟨7, some (.ofDecimal false 1 0), "src/a:f", "7 (1%) src/a:f"⟩,
          ⟨50, none, "src/b:g", "< 5,0 src/b:g"⟩] ∧
      [⟨50, none, "src/b:g", "< 5,0 src/b:g"⟩,
          ⟨7, some (.ofDecimal false 1 0), "src/a:f", "7 (1%) src/a:f"⟩] ⊆
        [(⟨7, some (.ofDecimal false 1 0), "src/a:f", "7 (1%) src/a:f"⟩ : CostLine),
          ⟨50, none, "src/b:g", "< 5,0 src/b:g"⟩] ∧
      ∃ report, render Format.text.name [⟨50, none, "src/b:g", "< 5,0 src/b:g"⟩,
          ⟨7, some (.ofDecimal false 1 0), "src/a:f", "7 (1%) src/a:f"⟩] = .ok report ∧
        lines report.toList = ["< 5,0 src/b:g".toList, "7 (1%) src/a:f".toList] ∧
        CostLine.ofText ["src/"] report = .ok [⟨50, none, "src/b:g", "< 5,0 src/b:g"⟩,
          ⟨7, some (.ofDecimal false 1 0), "src/a:f", "7 (1%) src/a:f"⟩] := by
  have hread : CostLine.ofText ["src/"] "7 (1%) src/a:f \t\u2028< 5,0 src/b:g\x1c\x0b" =
      .ok [⟨7, some (.ofDecimal false 1 0), "src/a:f", "7 (1%) src/a:f"⟩,
        ⟨50, none, "src/b:g", "< 5,0 src/b:g"⟩] := by
    decide +kernel
  have hshown : [⟨50, none, "src/b:g", "< 5,0 src/b:g"⟩,
      ⟨7, some (.ofDecimal false 1 0), "src/a:f", "7 (1%) src/a:f"⟩] ⊆
        [(⟨7, some (.ofDecimal false 1 0), "src/a:f", "7 (1%) src/a:f"⟩ : CostLine),
          ⟨50, none, "src/b:g", "< 5,0 src/b:g"⟩] :=
    (List.Perm.swap _ _ _).subset
  exact ⟨hread, hshown, render_text_readsBack hread hshown⟩

/-! ## Merging reports -/

theorem summary_of_ofText {text : String} {n : Int} (h : CostLine.ofText prefixes text = .ok kept)
    (hn : 1 ≤ n) :
    summary prefixes n Format.text.name text = .ok (plainReport ((ranking kept).take n.toNat)) := by
  have hhottest : hottest n kept = .ok ((ranking kept).take n.toNat) := by
    rw [hottest, if_neg (by omega)]
  unfold summary hottestLines
  rw [h]
  simp only [Except.mapError, bind, Except.bind, hhottest]
  rfl

/-- The hottest lines of a text give a plain report that reads as these lines. -/
theorem ofText_report_of_ofText {text : String} (h : CostLine.ofText prefixes text = .ok kept)
    (n : Nat) : CostLine.ofText prefixes (plainReport ((ranking kept).take n)) =
      .ok ((ranking kept).take n) := by
  apply ofText_plainReport
  intro l hl
  exact readsBack_of_mem h (mem_ranking.mp (List.mem_of_mem_take hl))

/-- **Merging reports.** The report on the `n` hottest lines of two texts can be made of the plain
reports on the `m` hottest lines of each, as long as `n` is at most `m`. A plain report is its own
report. -/
theorem summary_append_newline {a b : String} {as bs : List CostLine} {n m : Int}
    (ha : CostLine.ofText prefixes a = .ok as) (hb : CostLine.ofText prefixes b = .ok bs)
    (hn : 1 ≤ n) (hnm : n ≤ m) :
    ∃ reportA reportB merged,
      summary prefixes m Format.text.name a = .ok reportA ∧
      summary prefixes m Format.text.name b = .ok reportB ∧
      summary prefixes n Format.text.name (a ++ "\n" ++ b) = .ok merged ∧
      summary prefixes n Format.text.name (reportA ++ "\n" ++ reportB) = .ok merged ∧
      summary prefixes m Format.text.name reportA = .ok reportA := by
  have hm : 1 ≤ m := hn.trans hnm
  have hreportA := ofText_report_of_ofText ha m.toNat
  have hreportB := ofText_report_of_ofText hb m.toNat
  have htexts : CostLine.ofText prefixes (a ++ "\n" ++ b) = .ok (as ++ bs) := by
    rw [ofText_append_newline, ha, hb]
    rfl
  have hreports := ofText_append_newline prefixes (plainReport ((ranking as).take m.toNat))
    (plainReport ((ranking bs).take m.toNat))
  rw [hreportA, hreportB] at hreports
  refine ⟨_, _, _, summary_of_ofText ha hm, summary_of_ofText hb hm, summary_of_ofText htexts hn,
    ?_, ?_⟩
  · rw [summary_of_ofText hreports hn, take_ranking_append (Int.toNat_le_toNat hnm)]
  · rw [summary_of_ofText hreportA hm, take_ranking_self]

/-- Two lines of equal cost, the first with blanks and a carriage return behind it, and a third one
that does not reach the top of the merged report. -/
theorem summary_append_newline_ties :
    CostLine.ofText ["src/"] "7 src/a:f \t\r\n5 src/b:g" =
        .ok [⟨7, none, "src/a:f", "7 src/a:f"⟩, ⟨5, none, "src/b:g", "5 src/b:g"⟩] ∧
      CostLine.ofText ["src/"] "< 7 src/c:h\u2028" =
        .ok [⟨7, none, "src/c:h", "< 7 src/c:h"⟩] ∧ (1 : Int) ≤ 2 ∧ (2 : Int) ≤ 3 ∧
      ∃ reportA reportB merged,
        summary ["src/"] 3 Format.text.name "7 src/a:f \t\r\n5 src/b:g" = .ok reportA ∧
        summary ["src/"] 3 Format.text.name "< 7 src/c:h\u2028" = .ok reportB ∧
        summary ["src/"] 2 Format.text.name ("7 src/a:f \t\r\n5 src/b:g" ++ "\n" ++
          "< 7 src/c:h\u2028") = .ok merged ∧
        summary ["src/"] 2 Format.text.name (reportA ++ "\n" ++ reportB) = .ok merged ∧
        summary ["src/"] 3 Format.text.name reportA = .ok reportA := by
  have ha : CostLine.ofText ["src/"] "7 src/a:f \t\r\n5 src/b:g" =
      .ok [⟨7, none, "src/a:f", "7 src/a:f"⟩, ⟨5, none, "src/b:g", "5 src/b:g"⟩] := by
    decide +kernel
  have hb : CostLine.ofText ["src/"] "< 7 src/c:h\u2028" =
      .ok [⟨7, none, "src/c:h", "< 7 src/c:h"⟩] := by
    decide +kernel
  exact ⟨ha, hb, by decide, by decide, summary_append_newline ha hb (by decide) (by decide)⟩

end HotPath.Report
