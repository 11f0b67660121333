import HotPath.Proofs.Report.WrittenCosts

/-!
# Tables that are read again

The rows of the table of a report are cut into cells at the pipes that are not escaped. A pipe is
escaped by an odd number of backslashes in front of it.

* `lines_markdownReport`: a table has a row for each of its lines, below six lines of its own.
* `readsAs_row_iff`: which rows give the location of their line back. The pipes of a location are
  escaped twice, so that a row is also cut at a pipe of its location, or keeps a backslash too many
  in front of it. An odd number of backslashes at the end of a location escapes the pipe that closes
  its cell.
* `rows_markdownReport`: the table as a whole; `not_forall_readsAs`: it does not always read back.
-/

namespace HotPath.Report

open Text

/-! ## Cutting rows -/

/-- The parts of a row between the pipes that are not escaped. The row stands behind `slashes`
backslashes. -/
def cutCells (slashes : Nat) : List Char → List (List Char)
  | [] => [[]]
  | c :: rest =>
    if c = '|' ∧ slashes % 2 = 0 then [] :: cutCells 0 rest
    else consFirst c (cutCells (if c = '\\' then slashes + 1 else 0) rest)

/-- The number of backslashes at the end of a text. -/
def slashesAtEnd (s : List Char) : Nat := (s.reverse.takeWhile (· = '\\')).length

theorem slashesAtEnd_append_singleton (s : List Char) (c : Char) :
    slashesAtEnd (s ++ [c]) = if c = '\\' then slashesAtEnd s + 1 else 0 := by
  by_cases hc : c = '\\' <;> simp [slashesAtEnd, hc]

theorem slashesAtEnd_eq_zero {s : List Char} (h : '\\' ∉ s) : slashesAtEnd s = 0 := by
  cases s using List.reverseRecOn with
  | nil => rfl
  | append_singleton s c =>
    rw [slashesAtEnd_append_singleton, if_neg fun hc => h (by simp [hc])]

/-- The parts of a text that follows a text without cuts. -/
def prependFirst (s : List Char) (parts : List (List Char)) : List (List Char) :=
  s.foldr consFirst parts

theorem prependFirst_cons (s part : List Char) (parts : List (List Char)) :
    prependFirst s (part :: parts) = (s ++ part) :: parts := by
  induction s with
  | nil => rfl
  | cons c s ih =>
    rw [prependFirst, List.foldr_cons, ← prependFirst, ih]
    rfl

/-- A text without pipes is not cut. -/
theorem cutCells_append {s : List Char} (hs : '|' ∉ s) (before rest : List Char) :
    cutCells (slashesAtEnd before) (s ++ rest) =
      prependFirst s (cutCells (slashesAtEnd (before ++ s)) rest) := by
  induction s generalizing before with
  | nil => rw [List.append_nil, List.nil_append, prependFirst, List.foldr_nil]
  | cons c s ih =>
    have hc : c ≠ '|' := fun hc => hs (by simp [hc])
    have hrest := ih (fun h => hs (List.mem_cons_of_mem c h)) (before ++ [c])
    rw [slashesAtEnd_append_singleton, List.append_assoc, List.singleton_append] at hrest
    rw [List.cons_append, cutCells, if_neg fun h => hc h.1, hrest]
    rfl

/-- A cell without pipes is cut off by the pipe behind it, unless its last backslashes escape it. -/
theorem cutCells_cell {s : List Char} (hs : '|' ∉ s) (hslashes : slashesAtEnd s % 2 = 0)
    (rest : List Char) : cutCells 0 (s ++ '|' :: rest) = s :: cutCells 0 rest := by
  have hcut := cutCells_append hs [] ('|' :: rest)
  rw [List.nil_append, cutCells, if_pos ⟨rfl, hslashes⟩, prependFirst_cons, List.append_nil] at hcut
  exact hcut

theorem cutCells_escaped {s : List Char} (hs : '|' ∉ s) (hslashes : slashesAtEnd s % 2 ≠ 0) :
    cutCells 0 (s ++ ['|']) = [s ++ ['|']] := by
  have hcut := cutCells_append hs [] ['|']
  rw [List.nil_append, cutCells, if_neg fun h => hslashes h.2, cutCells, consFirst,
    prependFirst_cons] at hcut
  exact hcut

theorem cutCells_ne_nil (slashes : Nat) (s : List Char) : cutCells slashes s ≠ [] := by
  fun_cases cutCells slashes s with
  | case1 => simp
  | case2 => simp
  | case3 c rest =>
    cases cutCells (if c = '\\' then slashes + 1 else 0) rest <;> simp [consFirst]

/-- Cutting a text drops nothing but the pipes between the parts. -/
theorem intercalate_cutCells (slashes : Nat) (s : List Char) :
    ['|'].intercalate (cutCells slashes s) = s := by
  fun_induction cutCells slashes s with
  | case1 => rfl
  | case2 slashes c rest hcut ih =>
    obtain ⟨part, parts, hparts⟩ := List.exists_cons_of_ne_nil (cutCells_ne_nil 0 rest)
    rw [hparts] at ih
    rw [hparts, List.intercalate_cons_cons, ih, hcut.1]
    rfl
  | case3 slashes c rest hcut ih =>
    obtain ⟨part, parts, hparts⟩ := List.exists_cons_of_ne_nil
      (cutCells_ne_nil (if c = '\\' then slashes + 1 else 0) rest)
    rw [hparts] at ih
    rw [hparts, consFirst]
    cases parts with
    | nil => simpa using ih
    | cons part' parts =>
      rw [List.intercalate_cons_cons] at ih ⊢
      rw [← ih]
      rfl

/-! ## Escaping pipes -/

/-- Undoes one level of escaping: a backslash with a pipe behind it is the pipe. -/
def unescapePipes : List Char → List Char
  | [] => []
  | '\\' :: '|' :: rest => '|' :: unescapePipes rest
  | c :: rest => c :: unescapePipes rest

theorem unescapePipes_cons {c : Char} {s : List Char} (h : c ≠ '\\' ∨ s.head? ≠ some '|') :
    unescapePipes (c :: s) = c :: unescapePipes s := by
  rw [unescapePipes]
  rintro rest rfl rfl
  simp at h

theorem escapePipes_cons (c : Char) (s : List Char) :
    escapePipes (c :: s) = (if c = '|' then ['\\', '|'] else [c]) ++ escapePipes s :=
  List.flatMap_cons

theorem head?_escapePipes (s : List Char) : (escapePipes s).head? ≠ some '|' := by
  cases s with
  | nil => simp [escapePipes]
  | cons c s =>
    rw [escapePipes_cons]
    split
    · simp
    · simpa using ‹¬c = '|'›

theorem unescapePipes_escapePipes (s : List Char) : unescapePipes (escapePipes s) = s := by
  induction s with
  | nil => rfl
  | cons c s ih =>
    rw [escapePipes_cons]
    split
    · next hc =>
      rw [hc]
      exact congrArg _ ih
    · rw [List.singleton_append, unescapePipes_cons (.inr (head?_escapePipes s)), ih]

theorem length_escapePipes (s : List Char) :
    (escapePipes s).length = s.length + s.count '|' := by
  induction s with
  | nil => rfl
  | cons c s ih =>
    rw [escapePipes_cons, List.length_append, ih, List.length_cons, List.count_cons]
    by_cases hc : c = '|' <;> simp [hc] <;> omega

theorem escapePipes_eq_self_iff {s : List Char} : escapePipes s = s ↔ '|' ∉ s := by
  constructor
  · intro h
    have hlength := length_escapePipes s
    rw [h] at hlength
    exact List.count_eq_zero.mp (by omega)
  · intro h
    induction s with
    | nil => rfl
    | cons c s ih =>
      rw [escapePipes_cons, if_neg fun hc => h (by simp [hc]),
        ih fun hs => h (List.mem_cons_of_mem c hs)]
      rfl

theorem mem_of_mem_escapePipes {s : List Char} {c : Char} (h : c ∈ escapePipes s) :
    c = '\\' ∨ c ∈ s := by
  obtain ⟨d, hd, hc⟩ := List.mem_flatMap.mp h
  split at hc
  · next hpipe =>
    rw [hpipe] at hd
    rcases List.mem_cons.mp hc with rfl | hc
    · exact .inl rfl
    · rw [List.mem_singleton.mp hc]
      exact .inr hd
  · rw [List.mem_singleton.mp hc]
    exact .inr hd

/-! ## Numerals in cells -/

/-- A text of characters that numerals are made of. -/
def IsFigure (s : List Char) : Prop :=
  ∀ c ∈ s, c.isDigit = true ∨ c ∈ [',', '.', '-', 'i', 'n', 'f', 'a']

theorem IsFigure.append {s t : List Char} (hs : IsFigure s) (ht : IsFigure t) :
    IsFigure (s ++ t) := fun c hc => (List.mem_append.mp hc).elim (hs c) (ht c)

theorem isFigure_toDigits (n : Nat) : IsFigure (Nat.toDigits 10 n) := fun _ hc =>
  .inl (Nat.isDigit_of_mem_toDigits (by decide) (by decide) hc)

theorem isFigure_groupedNat (n : Nat) : IsFigure (groupedNat n) := by
  intro c hc
  rcases (isGrouping_groupedNat n).mem hc with rfl | hc
  · exact .inr (by decide)
  · exact isFigure_toDigits n c hc

theorem isFigure_grouped (n : Int) : IsFigure (grouped n) := by
  cases n with
  | ofNat n => exact isFigure_groupedNat n
  | negSucc n =>
    intro c hc
    rcases List.mem_cons.mp hc with rfl | hc
    · exact .inr (by decide)
    · exact isFigure_groupedNat (n + 1) c hc

theorem isFigure_toString (n : Nat) : IsFigure (toString n).toList := by
  have hdigits : (toString n).toList = Nat.toDigits 10 n := by simp
  rw [hdigits]
  exact isFigure_toDigits n

theorem isFigure_pointed (n : Nat) : IsFigure (Binary64.pointed n).toList := by
  rw [Binary64.pointed, String.toList_append, String.toList_append]
  refine ((isFigure_toString _).append ?_).append (isFigure_toString _)
  simp [IsFigure]

theorem isFigure_fixedTenths (x : Binary64) : IsFigure x.fixedTenths.toList := by
  have hwords : ∀ s ∈ ["-", "", "inf", "-inf", "nan"], IsFigure s.toList := by
    simp [IsFigure]
  unfold Binary64.fixedTenths
  split
  · dsimp only
    rw [String.toList_append]
    refine IsFigure.append (hwords _ ?_) (isFigure_pointed _)
    split <;> simp
  · refine hwords _ ?_
    split <;> simp
  · exact hwords _ (by simp)

theorem IsFigure.not_mem {s : List Char} (h : IsFigure s) {c : Char} (hdigit : c.isDigit = false)
    (hc : c ∉ [',', '.', '-', 'i', 'n', 'f', 'a']) : c ∉ s := by
  intro hmem
  rcases h c hmem with hd | hd
  · rw [hdigit] at hd
    cases hd
  · exact hc hd

theorem IsFigure.not_isLineBreak {s : List Char} (h : IsFigure s) :
    ∀ c ∈ s, isLineBreak c = false := by
  intro c hc
  have hmarks : ∀ c ∈ [',', '.', '-', 'i', 'n', 'f', 'a'], isLineBreak c = false := by
    simp [isLineBreak]
  rcases h c hc with hdigit | hmem
  · have hd : isDigit c = true := by simp [isDigit, digitValue?_of_isDigit hdigit]
    exact isLineBreak_of_not_isBlank (isBlank_of_isDigit hd)
  · exact hmarks c hmem

/-! ## The rows of a report -/

theorem CostLine.isFigure_share (l : CostLine) : IsFigure l.share := by
  rw [share]
  cases l.percent with
  | none => simp [IsFigure]
  | some x => exact isFigure_fixedTenths x

/-- The row of a line whose cost can be written. -/
def row (l : CostLine) : List Char := tableRow (shownCells l)

theorem row_eq (l : CostLine) :
    row l = '|' :: (grouped l.cost ++ '|' :: (l.share ++
      '|' :: (escapePipes (escapePipes l.location.toList) ++ ['|']))) := by
  have hcost := escapePipes_eq_self_iff.mpr
    ((isFigure_grouped l.cost).not_mem (c := '|') (by decide) (by decide))
  have hshare := escapePipes_eq_self_iff.mpr
    (l.isFigure_share.not_mem (c := '|') (by decide) (by decide))
  rw [row, tableRow, shownCells]
  simp only [List.flatMap_cons, List.flatMap_nil, hcost, hshare, List.append_assoc,
    List.singleton_append, List.append_nil]

theorem cutCells_row (l : CostLine) :
    cutCells 0 (row l) = [] :: grouped l.cost :: l.share ::
      cutCells 0 (escapePipes (escapePipes l.location.toList) ++ ['|']) := by
  have hfigure {s : List Char} (h : IsFigure s) (rest : List Char) :
      cutCells 0 (s ++ '|' :: rest) = s :: cutCells 0 rest := by
    have hslashes := slashesAtEnd_eq_zero (h.not_mem (c := '\\') (by decide) (by decide))
    exact cutCells_cell (h.not_mem (by decide) (by decide)) (by rw [hslashes]) rest
  rw [row_eq, cutCells, if_pos ⟨rfl, rfl⟩, hfigure (isFigure_grouped l.cost),
    hfigure l.isFigure_share]

/-- A row that is cut into three cells: the cost and the share of the line, and one that gives the
location back when one level of escaping is undone. -/
def ReadsAs (row : List Char) (l : CostLine) : Prop :=
  ∃ third, cutCells 0 row = [[], grouped l.cost, l.share, third, []] ∧
    unescapePipes third = l.location.toList

/-- A row gives its line back just when the location has no pipe and does not end in an odd number
of backslashes. -/
theorem readsAs_row_iff (l : CostLine) :
    ReadsAs (row l) l ↔
      '|' ∉ l.location.toList ∧ slashesAtEnd l.location.toList % 2 = 0 := by
  constructor
  · rintro ⟨third, hcut, hthird⟩
    -- The cells fill the row, so the third one is the location, escaped twice.
    have hrow := intercalate_cutCells 0 (row l)
    rw [hcut, row_eq] at hrow
    have hcell : third = escapePipes (escapePipes l.location.toList) := by
      simpa [List.intercalate] using hrow
    rw [hcell, unescapePipes_escapePipes] at hthird
    have hpipe := escapePipes_eq_self_iff.mp hthird
    refine ⟨hpipe, ?_⟩
    by_contra hslashes
    rw [cutCells_row, hthird, hthird, cutCells_escaped hpipe hslashes] at hcut
    simp at hcut
  · rintro ⟨hpipe, hslashes⟩
    have hself := escapePipes_eq_self_iff.mpr hpipe
    refine ⟨l.location.toList, ?_, ?_⟩
    · rw [cutCells_row, hself, hself, cutCells_cell hpipe hslashes, cutCells]
    · rw [← hself, unescapePipes_escapePipes, hself]

/-- A pipe in a location cuts its row into four cells. -/
example : cutCells 0 (row ⟨5, none, "src/a|b", "5 src/a|b"⟩) =
    [[], ['5'], [], "src/a\\\\".toList, ['b'], []] := by decide

/-- The rows of a report above those of its lines. -/
def tableHead : List (List Char) :=
  ["", "Hot source lines", "================", "", "|Cost|%|Location|",
    "| :--- | :--- | :--- |"].map String.toList

variable {prefixes : List String} {text : String} {kept ls : List CostLine}

theorem exists_markdownReport (h : CostLine.ofText prefixes text = .ok kept) (hls : ls ⊆ kept)
    (hne : ls ≠ []) : ∃ table, markdownReport ls = .ok table ∧
      table.toList = (tableHead ++ ls.map row).flatMap (· ++ ['\n']) := by
  have hjoin (rows : List (List Char)) :
      (String.join (rows.map fun r => String.ofList r ++ "\n")).toList =
        rows.flatMap (· ++ ['\n']) := by
    rw [String.toList_join, List.flatMap_map]
    simp
  have hrows : ls.map row = (ls.map shownCells).map tableRow := by
    rw [List.map_map]
    rfl
  rw [markdownReport, if_neg hne, tableRows, mapM_cells h hls]
  refine ⟨_, rfl, ?_⟩
  rw [String.toList_append, hjoin, hrows]
  simp only [List.flatMap_append, List.flatMap_cons]
  rfl

theorem not_isLineBreak_of_mem_row {l : CostLine}
    (hl : ∀ c ∈ l.location.toList, isBlank c = false) : ∀ c ∈ row l, isLineBreak c = false := by
  intro c hc
  rw [row_eq] at hc
  simp only [List.mem_cons, List.mem_append, List.not_mem_nil, or_false] at hc
  rcases hc with rfl | hc | rfl | hc | rfl | hc | rfl
  · decide
  · exact (isFigure_grouped l.cost).not_isLineBreak c hc
  · decide
  · exact l.isFigure_share.not_isLineBreak c hc
  · decide
  · rcases mem_of_mem_escapePipes hc with rfl | hc
    · decide
    rcases mem_of_mem_escapePipes hc with rfl | hc
    · decide
    · exact isLineBreak_of_not_isBlank (hl c hc)
  · decide

/-- A report has a row for each of its lines, in their order. -/
theorem lines_markdownReport (h : CostLine.ofText prefixes text = .ok kept)
    (hls : ∀ l ∈ ls, l ∈ kept) (hne : ls ≠ []) :
    ∃ table, markdownReport ls = .ok table ∧ lines table.toList = tableHead ++ ls.map row := by
  obtain ⟨table, htable, htext⟩ := exists_markdownReport h hls hne
  refine ⟨table, htable, ?_⟩
  rw [htext, lines_flatMap_lf]
  have hhead : ∀ r ∈ tableHead, ∀ c ∈ r, isLineBreak c = false := by
    simp [tableHead, isLineBreak]
  intro r hr
  rcases List.mem_append.mp hr with hr | hr
  · exact hhead r hr
  · obtain ⟨l, hl, rfl⟩ := List.mem_map.mp hr
    obtain ⟨s, -, hparse⟩ := exists_parse_of_mem h (hls l hl)
    exact not_isLineBreak_of_mem_row (exists_of_parse hparse).2

/-- **Reading a table.** Some of the cost lines that were read have a table, which has one row for
each of them, in their order, and these are the lines whose rows give them back. -/
theorem rows_markdownReport (h : CostLine.ofText prefixes text = .ok kept)
    (hls : ∀ l ∈ ls, l ∈ kept) (hne : ls ≠ []) :
    (∃ table, markdownReport ls = .ok table ∧ lines table.toList = tableHead ++ ls.map row) ∧
      ∀ l ∈ ls, (ReadsAs (row l) l ↔
        '|' ∉ l.location.toList ∧ slashesAtEnd l.location.toList % 2 = 0) :=
  ⟨lines_markdownReport h hls hne, fun l _ => readsAs_row_iff l⟩

/-- Of two lines the row of the second does not give it back: the backslash at its end escapes the
pipe behind it. -/
theorem rows_markdownReport_slash :
    CostLine.ofText ["src/"] "7 src/a.rs:f\n5 src/b\\" =
        .ok [⟨7, none, "src/a.rs:f", "7 src/a.rs:f"⟩, ⟨5, none, "src/b\\", "5 src/b\\"⟩] ∧
      (∃ table, markdownReport [⟨7, none, "src/a.rs:f", "7 src/a.rs:f"⟩,
          ⟨5, none, "src/b\\", "5 src/b\\"⟩] = .ok table ∧
        lines table.toList = tableHead ++ [row ⟨7, none, "src/a.rs:f", "7 src/a.rs:f"⟩,
          row ⟨5, none, "src/b\\", "5 src/b\\"⟩]) ∧
      ReadsAs (row ⟨7, none, "src/a.rs:f", "7 src/a.rs:f"⟩)
        ⟨7, none, "src/a.rs:f", "7 src/a.rs:f"⟩ ∧
      ¬ ReadsAs (row ⟨5, none, "src/b\\", "5 src/b\\"⟩) ⟨5, none, "src/b\\", "5 src/b\\"⟩ := by
  have hkept : CostLine.ofText ["src/"] "7 src/a.rs:f\n5 src/b\\" =
      .ok [⟨7, none, "src/a.rs:f", "7 src/a.rs:f"⟩, ⟨5, none, "src/b\\", "5 src/b\\"⟩] := by
    decide +kernel
  obtain ⟨hlines, hrows⟩ := rows_markdownReport hkept (fun _ hl => hl) (by decide)
  refine ⟨hkept, hlines, (hrows _ (by simp)).mpr (by decide), fun hreads => ?_⟩
  exact absurd ((hrows _ (by simp)).mp hreads) (by decide)

/-- A pipe in a location is escaped twice, so it is not escaped. -/
theorem not_forall_readsAs :
    ¬ ∀ (prefixes : List String) (text : String) (kept : List CostLine),
        CostLine.ofText prefixes text = .ok kept → kept ≠ [] →
      ∃ table rows, markdownReport kept = .ok table ∧ lines table.toList = tableHead ++ rows ∧
        List.Forall₂ ReadsAs rows kept := by
  intro h
  have hkept : CostLine.ofText ["src/"] "5 src/a|b" =
      .ok [⟨5, none, "src/a|b", "5 src/a|b"⟩] := by
    decide +kernel
  obtain ⟨table, rows, htable, hlines, hrows⟩ := h _ _ _ hkept (by decide)
  obtain ⟨table', htable', hlines'⟩ := lines_markdownReport hkept (fun _ hl => hl) (by decide)
  cases htable.symm.trans htable'
  rw [hlines', List.append_cancel_left_eq] at hlines
  rw [← hlines] at hrows
  cases hrows with
  | cons hrow _ => exact ((readsAs_row_iff _).mp hrow).1 (by decide)

end HotPath.Report
