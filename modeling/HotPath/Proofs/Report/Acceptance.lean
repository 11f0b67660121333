import HotPath.Proofs.Report.Readings

/-!
# Which lines are cost lines

A line is a cost line exactly if its winning reading has a location (`parse_iff_wins`). There is
only one such reading (`Reading.Wins.unique`), so the grammar leaves no choice of the cost, of the
share or of the location.
-/

namespace HotPath.Report

open Text

namespace Reading

variable {r r' : Reading} {s : List Char}

theorem Of.indent_eq (h : r.Of s) : r.indent ++ (r.cost ++ r.rest) = dropMarker s := by
  obtain ⟨hw, rfl⟩ := h
  exact (dropMarker_append hw.marker hw.indent hw.cost r.rest).symm

/-- Shares with the same percentage in front of columns are equal. -/
theorem WellFormed.share_unique (h : r.WellFormed) (h' : r'.WellFormed)
    (hpercent : r.percent = r'.percent) (hrest : r.rest = r'.rest) :
    r.share = r'.share ∧ r.gap ++ (r.columns ++ r.ending) = r'.gap ++ (r'.columns ++ r'.ending) := by
  have hs := h.share
  have hs' := h'.share
  unfold rest at hrest
  rw [← hpercent] at hs'
  generalize r.percent = percent at hs hs'
  generalize r.share = share at hs hrest ⊢
  generalize r'.share = share' at hs' hrest ⊢
  cases hs with
  | missing =>
    cases hs' with
    | missing => exact ⟨rfl, hrest⟩
  | @given b p d hb _ hp =>
    cases hs' with
    | @given b' p' _ hb' _ hp' =>
      rw [List.append_assoc, List.append_assoc] at hrest
      obtain ⟨rfl, htail⟩ := span_unique hb (hp.stops _) hb' (hp'.stops _) hrest
      have hread := share?_eq_some_iff.mpr ⟨p, hp, htail.symm⟩
      rw [share?_eq_some_iff.mpr ⟨p', hp', rfl⟩] at hread
      simp only [Option.some.injEq, Prod.mk.injEq, true_and] at hread
      rw [hread] at htail
      exact ⟨by rw [List.append_cancel_right htail], hread.symm⟩

/-- A line has at most one reading that counts. -/
theorem Wins.unique (h : r.Wins s) (h' : r'.Wins s) : r = r' := by
  obtain ⟨hr, hafter⟩ := wins_iff.mp h
  obtain ⟨hr', hafter'⟩ := wins_iff.mp h'
  have hcost := hr.cost?_eq.symm.trans hr'.cost?_eq
  simp only [Option.some.injEq, Prod.mk.injEq] at hcost
  obtain ⟨hcost, hrest⟩ := hcost
  rw [hrest, hafter'] at hafter
  simp only [Option.some.injEq, Prod.mk.injEq] at hafter
  obtain ⟨hpercent, hcolumns⟩ := hafter
  have hindent := hr.indent_eq.trans hr'.indent_eq.symm
  rw [hcost, hrest] at hindent
  have hindent := List.append_cancel_right hindent
  have hmarker := hr.2.trans hr'.2.symm
  unfold line at hmarker
  rw [hcost, hrest, hindent] at hmarker
  have hmarker := List.append_cancel_right hmarker
  obtain ⟨hshare, htail⟩ := hr.1.share_unique hr'.1 hpercent.symm hrest
  obtain ⟨hgap, hend⟩ := span_unique hr.1.gap (hr.1.columns.stops _) hr'.1.gap
    (hr'.1.columns.stops _) htail
  rw [hcolumns] at hend
  have hend := List.append_cancel_left hend
  cases r
  cases r'
  simp only [Reading.mk.injEq]
  exact ⟨hmarker, hindent, hcost, hshare, hpercent.symm, hgap, hcolumns.symm, hend⟩

end Reading

/-! ## Locations -/

/-- A word that starts with one of the prefixes. -/
def IsLocation (prefixes : List String) (w : List Char) : Prop :=
  ∃ p ∈ prefixes, p.toList <+: w

/-- `location` is the first word of the columns that starts with one of the prefixes. -/
def FirstLocation (prefixes : List String) (columns location : List Char) : Prop :=
  ∃ before after, words columns = before ++ location :: after ∧ IsLocation prefixes location ∧
    ∀ w ∈ before, ¬ IsLocation prefixes w

theorem any_isPrefixOf_iff {prefixes : List String} {w : List Char} :
    (prefixes.any fun p => p.toList.isPrefixOf w) = true ↔ IsLocation prefixes w := by
  simp [IsLocation, List.isPrefixOf_iff_prefix]

theorem location?_eq_some_iff {prefixes : List String} {columns location : List Char} :
    location? prefixes columns = some location ↔ FirstLocation prefixes columns location := by
  rw [location?, List.find?_eq_some_iff_append]
  constructor
  · rintro ⟨hloc, before, after, hwords, hbefore⟩
    refine ⟨before, after, hwords, any_isPrefixOf_iff.mp hloc, fun w hw hw' => ?_⟩
    have := hbefore w hw
    rw [any_isPrefixOf_iff.mpr hw'] at this
    cases this
  · rintro ⟨before, after, hwords, hloc, hbefore⟩
    refine ⟨any_isPrefixOf_iff.mpr hloc, before, after, hwords, fun w hw => ?_⟩
    rw [Bool.not_eq_true', ← Bool.not_eq_true, any_isPrefixOf_iff]
    exact hbefore w hw

theorem reading?_eq_some_iff {prefixes : List String} {s cost location : List Char}
    {percent : Option DecimalText} :
    reading? prefixes s = some (cost, percent, location) ↔
      ∃ r : Reading, r.Wins s ∧ r.cost = cost ∧ r.percent = percent ∧
        FirstLocation prefixes r.columns location := by
  constructor
  · intro h
    simp only [reading?, Option.bind_eq_bind, Option.bind_eq_some_iff, Option.pure_def,
      Option.some.injEq, Prod.exists, Prod.mk.injEq] at h
    obtain ⟨cost, rest, hcost, percent, columns, hafter, location, hloc, rfl, rfl, rfl⟩ := h
    obtain ⟨share, t, hshare, hcolumns, hrest⟩ := exists_of_afterCost? hafter
    obtain ⟨r, hr, rfl, rfl, -, rfl⟩ := Reading.exists_of hcost hshare hcolumns hrest
    have heq := hcost.symm.trans hr.cost?_eq
    simp only [Option.some.injEq, Prod.mk.injEq, true_and] at heq
    rw [heq] at hafter
    exact ⟨r, Reading.wins_iff.mpr ⟨hr, hafter⟩, rfl, rfl, location?_eq_some_iff.mp hloc⟩
  · rintro ⟨r, hr, rfl, rfl, hloc⟩
    obtain ⟨hof, hafter⟩ := Reading.wins_iff.mp hr
    simp [reading?, hof.cost?_eq, hafter, location?_eq_some_iff.mpr hloc]

theorem reading?_eq_none_iff {prefixes : List String} {s : List Char} :
    reading? prefixes s = none ↔
      ∀ r : Reading, r.Wins s → ∀ location, ¬ FirstLocation prefixes r.columns location := by
  constructor
  · intro h r hr location hloc
    rw [reading?_eq_some_iff.mpr ⟨r, hr, rfl, rfl, hloc⟩] at h
    cases h
  · intro h
    by_contra hne
    obtain ⟨⟨cost, percent, location⟩, hsome⟩ := Option.ne_none_iff_exists'.mp hne
    obtain ⟨r, hr, -, -, hloc⟩ := reading?_eq_some_iff.mp hsome
    exact h r hr location hloc

/-! ## Cost lines -/

/-- The digits of the cost of a reading. -/
def Reading.digits (r : Reading) : List Char := r.cost.filter (· ≠ ',')

/-- A winning reading with a location decides what the line gives. -/
theorem parse_of_wins {prefixes : List String} {s location : List Char} {r : Reading}
    (hr : r.Wins s) (hloc : FirstLocation prefixes r.columns location) :
    CostLine.parse prefixes s =
      if 4300 < r.digits.length then .error (.tooManyDigits r.digits.length)
      else .ok (some ⟨natOfDigits r.digits, r.percent.map (·.value), .ofList location,
        .ofList (trimRight s)⟩) := by
  have hread := reading?_eq_some_iff.mpr ⟨r, hr, rfl, rfl, hloc⟩
  simp only [CostLine.parse, hread]
  rfl

theorem parse_eq_none_iff {prefixes : List String} {s : List Char} :
    CostLine.parse prefixes s = .ok none ↔
      ∀ r : Reading, r.Wins s → ∀ location, ¬ FirstLocation prefixes r.columns location := by
  constructor
  · intro h r hr location hloc
    rw [parse_of_wins hr hloc] at h
    split at h <;> cases h
  · intro h
    rw [CostLine.parse, reading?_eq_none_iff.mpr h]

/-- A line that gives something has a winning reading with a location. -/
theorem exists_wins_of_parse {prefixes : List String} {s : List Char}
    (h : CostLine.parse prefixes s ≠ .ok none) :
    ∃ (r : Reading) (location : List Char), r.Wins s ∧
      FirstLocation prefixes r.columns location := by
  by_contra hno
  refine h (parse_eq_none_iff.mpr fun r hr location hloc => hno ⟨r, location, hr, hloc⟩)

/-- **The grammar of cost lines.** The line `s` is a cost line of the prefixes if and only if some
word of the columns of its winning reading starts with a prefix; the cost, the share and the
location are those of this reading, which is the only one. Too many digits are an error, and every
other line gives nothing. -/
theorem parse_iff_wins (prefixes : List String) (s : List Char) :
    (∀ r r' : Reading, r.Wins s → r'.Wins s → r = r') ∧
    (∀ l, CostLine.parse prefixes s = .ok (some l) ↔
      ∃ (r : Reading) (location : List Char), r.Wins s ∧
        FirstLocation prefixes r.columns location ∧ r.digits.length ≤ 4300 ∧
        l = ⟨natOfDigits r.digits, r.percent.map (·.value), .ofList location,
          .ofList (trimRight s)⟩) ∧
    (∀ e, CostLine.parse prefixes s = .error e ↔
      ∃ (r : Reading) (location : List Char), r.Wins s ∧
        FirstLocation prefixes r.columns location ∧ 4300 < r.digits.length ∧
        e = .tooManyDigits r.digits.length) ∧
    (CostLine.parse prefixes s = .ok none ↔
      ∀ r : Reading, r.Wins s → ∀ location, ¬ FirstLocation prefixes r.columns location) := by
  refine ⟨fun r r' h h' => h.unique h', fun l => ⟨fun h => ?_, ?_⟩, fun e => ⟨fun h => ?_, ?_⟩,
    parse_eq_none_iff⟩
  · obtain ⟨r, location, hr, hloc⟩ := exists_wins_of_parse (by rw [h]; simp)
    rw [parse_of_wins hr hloc] at h
    split at h
    · cases h
    · rename_i hlen
      cases h
      exact ⟨r, location, hr, hloc, by omega, rfl⟩
  · rintro ⟨r, location, hr, hloc, hlen, rfl⟩
    rw [parse_of_wins hr hloc, if_neg (by omega)]
  · obtain ⟨r, location, hr, hloc⟩ := exists_wins_of_parse (by rw [h]; simp)
    rw [parse_of_wins hr hloc] at h
    split at h
    · rename_i hlen
      cases h
      exact ⟨r, location, hr, hloc, hlen, rfl⟩
    · cases h
  · rintro ⟨r, location, hr, hloc, hlen, rfl⟩
    rw [parse_of_wins hr hloc, if_pos hlen]

end HotPath.Report
