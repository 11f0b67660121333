import HotPath.Proofs.Loading
import HotPath.Proofs.Text.Words

/-!
# Plain source directories

The plain form of a source directory consists of names with single slashes between them, and reading
it again gives these names (`namesOf_plain`). A plain form is its own plain form exactly if no blank
stands at its ends (`plainSourceDir_eq_self_iff`). The source directory of a loaded configuration is
plain (`sourceDir_of_load`).
-/

namespace HotPath

open Text FileSystem

/-! ## Names between slashes -/

namespace Path

theorem pieces_eq_splitOn (s : List Char) : pieces s = s.splitOn '/' := by
  induction s with
  | nil => rfl
  | cons c s ih =>
    rw [pieces, List.splitOn_cons_eq_if_modifyHead, ← ih]
    by_cases hc : c = '/'
    · simp [hc]
    · simp only [hc, if_false, beq_iff_eq]
      cases hs : pieces s with
      | nil =>
        rw [ih] at hs
        exact absurd hs (List.splitOn_ne_nil '/' s)
      | cons p ps => rfl

/-- A text that can stand between two slashes of a plain path. -/
def IsPlainName (name : String) : Prop := isName name.toList = true ∧ '/' ∉ name.toList

theorem IsPlainName.ne_empty {name : String} (h : IsPlainName name) : name ≠ "" := by
  rintro rfl
  exact absurd h.1 (by decide)

theorem IsPlainName.ne_dot {name : String} (h : IsPlainName name) : name ≠ "." := by
  rintro rfl
  exact absurd h.1 (by decide)

theorem ne_nil_of_isName {s : List Char} (h : isName s = true) : s ≠ [] := by
  rintro rfl
  exact absurd h (by decide)

theorem pieces_of_not_slash {s : List Char} (h : '/' ∉ s) : pieces s = [s] := by
  induction s with
  | nil => rfl
  | cons c s ih =>
    obtain ⟨hc, hs⟩ := not_or.mp (mt List.mem_cons.mpr h)
    rw [pieces, if_neg (Ne.symm hc), ih hs]

theorem not_slash_of_mem_pieces {s p : List Char} (hp : p ∈ pieces s) : '/' ∉ p := by
  rw [pieces_eq_splitOn] at hp
  induction s generalizing p with
  | nil =>
    rw [List.splitOn_nil, List.mem_singleton] at hp
    simp [hp]
  | cons c s ih =>
    rw [List.splitOn_cons_eq_if_modifyHead] at hp
    split at hp
    · rcases List.mem_cons.mp hp with rfl | hp
      · simp
      · exact ih hp
    · rename_i hc
      cases hs : s.splitOn '/' with
      | nil => exact absurd hs (List.splitOn_ne_nil '/' s)
      | cons q qs =>
        rw [hs] at ih hp
        rcases List.mem_cons.mp hp with rfl | hp
        · have hq := ih List.mem_cons_self
          simp only [beq_iff_eq] at hc
          simp [hq, Ne.symm hc]
        · exact ih (List.mem_cons_of_mem q hp)

theorem isPlainName_of_mem_namesOf {s : List Char} {name : String} (h : name ∈ namesOf s) :
    IsPlainName name := by
  obtain ⟨p, hp, rfl⟩ := List.mem_map.mp h
  obtain ⟨hmem, hname⟩ := List.mem_filter.mp hp
  rw [IsPlainName, String.toList_ofList]
  exact ⟨hname, not_slash_of_mem_pieces hmem⟩

/-- Reading plain names with slashes between them gives the names. -/
theorem namesOf_plain {names : List String} (hne : names ≠ [])
    (h : ∀ n ∈ names, IsPlainName n) : namesOf ("/".intercalate names).toList = names := by
  have hslash : ∀ l ∈ names.map String.toList, '/' ∉ l := by
    intro l hl
    obtain ⟨n, hn, rfl⟩ := List.mem_map.mp hl
    exact (h n hn).2
  have hpieces : pieces ("/".intercalate names).toList = names.map String.toList := by
    rw [pieces_eq_splitOn, String.toList_intercalate]
    exact List.splitOn_intercalate '/' hslash (by simpa using hne)
  have hfilter : (names.map String.toList).filter isName = names.map String.toList := by
    refine List.filter_eq_self.mpr fun l hl => ?_
    obtain ⟨n, hn, rfl⟩ := List.mem_map.mp hl
    exact (h n hn).1
  rw [namesOf, hpieces, hfilter, List.map_map]
  simp [Function.comp_def]

/-- Reading plain names with slashes between them gives the names, also if there are none. -/
theorem namesOf_intercalate {names : List String} (h : ∀ n ∈ names, IsPlainName n) :
    namesOf ("/".intercalate names).toList = names := by
  by_cases hne : names = []
  · rw [hne]
    rfl
  · exact namesOf_plain hne h

theorem intercalate_ne_empty {names : List String} (hne : names ≠ [])
    (h : ∀ n ∈ names, IsPlainName n) : "/".intercalate names ≠ "" := by
  intro hempty
  have hnames := namesOf_plain hne h
  rw [hempty] at hnames
  exact hne hnames.symm

theorem intercalate_ne_dot {names : List String} (h : ∀ n ∈ names, IsPlainName n) :
    "/".intercalate names ≠ "." := by
  intro hdot
  have hnames := namesOf_intercalate h
  rw [hdot] at hnames
  subst hnames
  exact absurd hdot (by decide)

theorem intercalate_sublist {α : Type} (sep : List α) {ls ls' : List (List α)}
    (h : ls.Sublist ls') : (sep.intercalate ls).Sublist (sep.intercalate ls') := by
  induction h with
  | slnil => exact .slnil
  | @cons ls ls' l hsub ih =>
    by_cases hne : ls' = []
    · subst hne
      rw [List.sublist_nil.mp hsub]
      exact List.nil_sublist _
    · rw [List.intercalate_cons_of_ne_nil hne]
      exact ih.trans (List.sublist_append_right _ _)
  | @cons_cons ls ls' l hsub ih =>
    by_cases hne' : ls' = []
    · subst hne'
      rw [List.sublist_nil.mp hsub]
    · rw [List.intercalate_cons_of_ne_nil hne']
      by_cases hne : ls = []
      · subst hne
        rw [List.intercalate_singleton, List.append_assoc]
        exact List.sublist_append_left l _
      · rw [List.intercalate_cons_of_ne_nil hne]
        exact (List.Sublist.refl _).append ih

/-- The names of a text with slashes between them are a part of the text. -/
theorem namesOf_sublist (s : List Char) : ("/".intercalate (namesOf s)).toList.Sublist s := by
  have hnames : (namesOf s).map String.toList = (s.splitOn '/').filter isName := by
    rw [namesOf, pieces_eq_splitOn, List.map_map]
    simp [Function.comp_def]
  have hpart : (['/'].intercalate ((s.splitOn '/').filter isName)).Sublist
      (['/'].intercalate (s.splitOn '/')) :=
    intercalate_sublist ['/'] List.filter_sublist
  rw [List.intercalate_splitOn, ← hnames] at hpart
  rw [String.toList_intercalate]
  exact hpart

/-- Plain names with slashes between them start with no slash. -/
theorem head?_plain {names : List String} (h : ∀ n ∈ names, IsPlainName n) :
    ("/".intercalate names).toList.head? ≠ some '/' := by
  cases names with
  | nil => exact nofun
  | cons n names =>
    obtain ⟨hname, hslash⟩ := h n List.mem_cons_self
    obtain ⟨c, cs, hcs⟩ := List.exists_cons_of_ne_nil (ne_nil_of_isName hname)
    have hc : c ≠ '/' := by
      rintro rfl
      exact hslash (by rw [hcs]; exact List.mem_cons_self)
    have hhead : ("/".intercalate (n :: names)).toList.head? = some c := by
      cases names with
      | nil => simp [hcs]
      | cons m names => simp [String.intercalate_cons_cons, hcs]
    rw [hhead]
    simpa using hc

/-- Plain names with slashes between them end with no slash. -/
theorem getLast?_plain {names : List String} (h : ∀ n ∈ names, IsPlainName n) :
    ("/".intercalate names).toList.getLast? ≠ some '/' := by
  induction names with
  | nil => exact nofun
  | cons n names ih =>
    cases names with
    | nil =>
      intro hlast
      exact (h n List.mem_cons_self).2 (List.mem_of_getLast? (by simpa using hlast))
    | cons m names =>
      have hrest := ih fun k hk => h k (List.mem_cons_of_mem n hk)
      have hne : ("/".intercalate (m :: names)).toList ≠ [] := fun hnil =>
        intercalate_ne_empty (List.cons_ne_nil m names)
          (fun k hk => h k (List.mem_cons_of_mem n hk)) (String.toList_eq_nil_iff.mp hnil)
      rw [String.intercalate_cons_cons, String.toList_append, List.getLast?_append_of_ne_nil _ hne]
      exact hrest

theorem rootOf_of_head? {s : List Char} (h : s.head? ≠ some '/') : rootOf s = .relative := by
  cases s with
  | nil => rfl
  | cons c s =>
    have hc : c ≠ '/' := by simpa using h
    unfold rootOf
    split
    · rename_i heq
      exact absurd (List.cons.inj heq).1 hc
    · rename_i heq
      exact absurd (List.cons.inj heq).1 hc
    · rename_i heq
      exact absurd (List.cons.inj heq).1 hc
    · rfl

/-- Plain names with slashes between them start at no root. -/
theorem rootOf_plain {names : List String} (h : ∀ n ∈ names, IsPlainName n) :
    rootOf ("/".intercalate names).toList = .relative :=
  rootOf_of_head? (head?_plain h)

end Path

/-! ## The plain form -/

/-- The names that a source directory consists of. -/
def sourceNames (text : String) : List String := Path.namesOf (trim text.toList)

theorem isPlainName_of_mem_sourceNames (text : String) :
    ∀ n ∈ sourceNames text, Path.IsPlainName n :=
  fun _ hn => Path.isPlainName_of_mem_namesOf hn

/-- Slashes in front of a text are cut off, and nothing else if the text has none at its ends. -/
theorem trimSlashes_append {front s : List Char} (hfront : ∀ c ∈ front, c = '/')
    (hhead : s.head? ≠ some '/') (hlast : s.getLast? ≠ some '/') :
    trimSlashes (front ++ s) = s := by
  have hstart : (front ++ s).dropWhile (· = '/') = s :=
    dropWhile_span (by simpa using hfront) fun c hc => by
      simpa using fun hslash : c = '/' => hhead (by rw [← hslash]; exact hc)
  have hend : s.reverse.dropWhile (· = '/') = s.reverse :=
    dropWhile_span (u := []) (by simp) fun c hc => by
      have hc : c ∈ s.getLast? := by rwa [← List.head?_reverse]
      simpa using fun hslash : c = '/' => hlast (by rw [← hslash]; exact hc)
  rw [trimSlashes, hstart, hend, List.reverse_reverse]

/-- The slashes at the ends of a path are those of its root. -/
theorem trimSlashes_text (root : Root) {names : List String} (hne : names ≠ [])
    (h : ∀ n ∈ names, Path.IsPlainName n) :
    trimSlashes (Path.mk root names).text.toList = ("/".intercalate names).toList := by
  have hroot : ∀ c ∈ root.text.toList, c = '/' := by
    cases root <;> simp [Root.text]
  rw [Path.text, if_neg fun hbare => hne hbare.2, String.toList_append]
  exact trimSlashes_append hroot (Path.head?_plain h) (Path.getLast?_plain h)

/-- The plain form of a source directory consists of its names. -/
theorem plainSourceDir_eq (text : String) :
    plainSourceDir text
      = if sourceNames text = [] then .error (.nameless text)
        else .ok ("/".intercalate (sourceNames text)) := by
  have hplain := isPlainName_of_mem_sourceNames text
  have hparse : Path.parse (.ofList (trim text.toList))
      = ⟨Path.rootOf (trim text.toList), sourceNames text⟩ := by
    rw [Path.parse, sourceNames, String.toList_ofList]
  by_cases hne : sourceNames text = []
  · rw [plainSourceDir, hparse, if_pos hne, hne]
    cases Path.rootOf (trim text.toList) <;> rfl
  · rw [plainSourceDir, hparse, if_neg hne]
    simp only [trimSlashes_text _ hne hplain, String.ofList_toList,
      Path.intercalate_ne_empty hne hplain, Path.intercalate_ne_dot hplain, decide_false,
      Bool.or_self, Bool.false_eq_true, if_false]

/-- Names with a slash between them, at least one. -/
def IsPlain (s : String) : Prop :=
  ∃ names, names ≠ [] ∧ (∀ n ∈ names, Path.IsPlainName n) ∧ s = "/".intercalate names

theorem plainSourceDir_eq_ok_iff {text plain : String} :
    plainSourceDir text = .ok plain
      ↔ sourceNames text ≠ [] ∧ plain = "/".intercalate (sourceNames text) := by
  rw [plainSourceDir_eq]
  split
  · rename_i hne
    simp [hne]
  · rename_i hne
    simp [hne, eq_comm]

theorem isPlain_of_plainSourceDir {text plain : String} (h : plainSourceDir text = .ok plain) :
    IsPlain plain := by
  obtain ⟨hne, rfl⟩ := plainSourceDir_eq_ok_iff.mp h
  exact ⟨_, hne, isPlainName_of_mem_sourceNames text, rfl⟩

/-- A plain form is its own plain form exactly if trimming takes nothing from it. -/
theorem plainSourceDir_eq_self_iff {s : String} (hs : IsPlain s) :
    plainSourceDir s = .ok s ↔ IsTrimmed s.toList := by
  constructor
  · intro h
    obtain ⟨-, hself⟩ := plainSourceDir_eq_ok_iff.mp h
    have hpart : s.toList.Sublist (trim s.toList) := by
      conv_lhs => rw [hself]
      exact Path.namesOf_sublist _
    exact trim_eq_self_iff.mp ((trim_sublist s.toList).antisymm hpart)
  · intro h
    obtain ⟨names, hne, hnames, rfl⟩ := hs
    have hread : sourceNames ("/".intercalate names) = names := by
      rw [sourceNames, trim_eq_self_iff.mpr h, Path.namesOf_plain hne hnames]
    rw [plainSourceDir_eq, hread, if_neg hne]

theorem plainSourceDir_self {s : String} (hs : IsPlain s)
    (hclean : ∀ c ∈ s.toList, isBlank c = false) : plainSourceDir s = .ok s :=
  (plainSourceDir_eq_self_iff hs).mpr (trim_eq_self_iff.mp (trim_eq_self hclean))

/-- The text of a directory seen from a work directory ends with the plain form of the directory. -/
theorem text_join_plain (workDir : Path) {s : String} (hs : IsPlain s) :
    ∃ front, (workDir.join s).text = front ++ s := by
  obtain ⟨names, hne, hnames, rfl⟩ := hs
  have hparse : Path.parse ("/".intercalate names) = ⟨.relative, names⟩ := by
    rw [Path.parse, Path.rootOf_plain hnames, Path.namesOf_plain hne hnames]
  have hjoin : workDir.join ("/".intercalate names) = ⟨workDir.root, workDir.names ++ names⟩ := by
    rw [Path.join, hparse, Path.append]
    rfl
  rw [hjoin, Path.text, if_neg (by simp [hne])]
  by_cases hw : workDir.names = []
  · exact ⟨workDir.root.text, by rw [hw, List.nil_append]⟩
  · refine ⟨workDir.root.text ++ ("/".intercalate workDir.names ++ "/"), ?_⟩
    rw [String.intercalate_append_of_ne_nil hw hne]
    simp only [String.append_assoc]

/-- The source directory of a loaded configuration is plain. -/
theorem sourceDir_of_load {v : View} {e : Environment} {vars : Variables} {r : Request}
    {c : Config} (h : Config.load v e vars r = .ok c) : IsPlain c.sourceDir := by
  have hchosen := (answersTo_of_load h).sourceDir
  unfold chooseSourceDir at hchosen
  split at hchosen
  · rw [← Except.ok.inj hchosen]
    exact ⟨["src"], by simp, by simp [Path.IsPlainName, Path.isName], rfl⟩
  · cases hchosen
  · exact isPlain_of_plainSourceDir (mapError_eq_ok_iff.mp hchosen)

end HotPath
