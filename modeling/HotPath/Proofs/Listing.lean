import HotPath.Proofs.FileSystem.Rooted
import HotPath.Proofs.Glob.Matching
import HotPath.Proofs.Outputs

/-!
# Outputs in one directory

A pattern that is one name finds entries of the work directory itself: those that it matches and
that are regular files, links followed (`isOutput_iff_of_name`). They are listed in the order of
their names (`outputs_of_name`). A search looks up the work directory and every entry that the
pattern matches, or the one name that a pattern without wildcards can match (`LooksAt`); it fails
exactly if a path among these is too long to be looked up, be it by a link behind it.
-/

namespace HotPath

open FileSystem Glob

variable {v : View} {workDir p : Path} {text name : String} {pattern : PathPattern}
  {files : List Path}

/-- Where a regular file is below a directory, the directory is there. -/
theorem isDirectory_of_isFile_child (h : v.isFile (workDir.child name) = .ok true) :
    v.isDirectory workDir = .ok true := by
  obtain ⟨content, executable, hfind⟩ := View.isFile_iff.mp h
  obtain ⟨e, hthere, hdirectory⟩ := View.exists_find_of_append hfind
  rw [View.isDirectory_iff, hthere, hdirectory (List.cons_ne_nil name [])]

/-- The outputs in one directory are the entries that the pattern matches and that are regular
files, links followed. -/
theorem isOutput_iff_of_name (hname : Path.IsPlainName text)
    (hstars : hasDoubleStar text.toList = false) (hparse : PathPattern.parse text = .ok pattern) :
    IsOutput v workDir pattern p ↔ ∃ name, p = workDir.child name ∧ v.Contains workDir name ∧
      Matches text.toList name.toList ∧ v.isFile (workDir.child name) = .ok true := by
  rcases cases_of_parse hname hstars hparse with ⟨hplain, rfl⟩ | ⟨-, rfl⟩
  · have hself (name : String) : Matches text.toList name.toList ↔ name = text :=
      (matches_iff_eq hplain).trans String.toList_inj
    constructor
    · rintro ⟨-, hleads, hfile⟩
      cases hleads with
      | exactly _ hrest =>
        cases hrest
        obtain ⟨content, executable, hfind⟩ := View.isFile_iff.mp hfile
        have hthere := View.contains_of_find hname.ne_dot hname.ne_empty hfind nofun
        exact ⟨text, rfl, hthere, (hself text).mpr rfl, hfile⟩
    · rintro ⟨name, rfl, -, hmatches, hfile⟩
      obtain rfl := (hself name).mp hmatches
      refine ⟨isDirectory_of_isFile_child hfile, .exactly ?_ .here, hfile⟩
      obtain ⟨content, executable, hfind⟩ := View.isFile_iff.mp hfile
      exact View.isPresent_iff.mpr ⟨_, hfind⟩
  · constructor
    · rintro ⟨-, hleads, hfile⟩
      cases hleads with
      | covering hlist hmember hcovers _ hrest =>
        cases hrest
        exact ⟨_, rfl, (View.contains_iff_mem_list hlist).mpr ⟨_, hmember⟩,
          covers_piecesOf_iff.mp hcovers, hfile⟩
    · rintro ⟨name, rfl, ⟨a, e, hlocate, hentry⟩, hmatches, hfile⟩
      refine ⟨isDirectory_of_isFile_child hfile, ?_, hfile⟩
      exact .covering (View.list_of_locate hlocate) (v.tree.mem_members_iff.mpr hentry)
        (covers_piecesOf_iff.mpr hmatches) nofun .here

/-! ## Searches that fail -/

/-- The paths that a search in one directory looks up. -/
inductive LooksAt (v : View) (workDir : Path) (text : String) : Path → Prop where
  | directory : LooksAt v workDir text workDir
  | child {name : String} : v.isDirectory workDir = .ok true → Matches text.toList name.toList →
      v.Contains workDir name ∨ Wildless text → LooksAt v workDir text (workDir.child name)

theorem exists_isFile_iff : (∃ b, v.isFile p = .ok b) ↔ ∃ found, v.find p = .ok found :=
  exists_map_eq_ok_iff.trans exists_map_eq_ok_iff

theorem find_of_isFile_error {e : FileError} (h : v.isFile p = .error e) : v.find p = .error e :=
  map_eq_error_iff.mp (map_eq_error_iff.mp h)

section Search

variable {pieces : List Piece} {found : List Path} {e : FileError}

theorem find_of_follow_nil_error (h : follow v v.isFile false [] p = .error e) :
    v.find p = .error e := by
  rcases bind_eq_error_iff.mp h with hfile | ⟨b, -, h⟩
  · exact find_of_isFile_error hfile
  · cases h

theorem exists_find_of_follow_nil (h : follow v v.isFile false [] p = .ok found) :
    ∃ found, v.find p = .ok found := by
  obtain ⟨b, hfile, -⟩ := bind_eq_ok_iff.mp h
  exact exists_isFile_iff.mp ⟨b, hfile⟩

theorem find_of_follow_exactly_error (h : follow v v.isFile false [.exactly name] p = .error e) :
    v.find (p.child name) = .error e := by
  rw [follow_exactly] at h
  rcases bind_eq_error_iff.mp h with hthere | ⟨there, -, h⟩
  · exact map_eq_error_iff.mp hthere
  · cases there with
    | true => exact find_of_follow_nil_error h
    | false => cases h

theorem exists_find_of_follow_exactly
    (h : follow v v.isFile false [.exactly name] p = .ok found) :
    ∃ found, v.find (p.child name) = .ok found := by
  rw [follow_exactly] at h
  obtain ⟨there, hthere, -⟩ := bind_eq_ok_iff.mp h
  exact exists_map_eq_ok_iff.mp ⟨there, hthere⟩

theorem exists_of_follow_covering_error (hlist : ∃ members, v.list p = .ok members)
    (h : follow v v.isFile false [.covering pieces] p = .error e) :
    ∃ name, v.Contains p name ∧ Covers pieces name.toList ∧ v.find (p.child name) = .error e := by
  obtain ⟨members, hmembers⟩ := hlist
  rw [follow_covering, hmembers] at h
  change members.mapM (followEntry v v.isFile false pieces [] p) >>= _ = _ at h
  obtain h | ⟨founds, -, h⟩ := bind_eq_error_iff.mp h
  · obtain ⟨⟨name, entry⟩, hmember, hentry⟩ := exists_of_mapM_eq_error h
    have hthere := (View.contains_iff_mem_list hmembers).mpr ⟨entry, hmember⟩
    obtain hadmitted | ⟨admitted, -, hentry⟩ := bind_eq_error_iff.mp hentry
    · cases hadmitted
    · split at hentry
      · rename_i hboth
        have hmatches := (Bool.and_eq_true_iff.mp hboth).2
        exact ⟨name, hthere, matchesPieces_iff.mp hmatches, find_of_follow_nil_error hentry⟩
      · cases hentry
  · cases h

theorem exists_find_of_follow_covering (hthere : v.Contains p name)
    (hcovers : Covers pieces name.toList)
    (h : follow v v.isFile false [.covering pieces] p = .ok found) :
    ∃ found, v.find (p.child name) = .ok found := by
  rw [follow_covering] at h
  obtain ⟨members, hmembers, h⟩ := bind_eq_ok_iff.mp h
  obtain ⟨founds, hfounds, -⟩ := bind_eq_ok_iff.mp h
  obtain ⟨entry, hmember⟩ := (View.contains_iff_mem_list hmembers).mp hthere
  obtain ⟨found, hfound⟩ := exists_mapM_eq_ok_iff.mp ⟨founds, hfounds⟩ _ hmember
  have hmatches := matchesPieces_iff.mpr hcovers
  obtain ⟨admitted, hadmitted, hfound⟩ := bind_eq_ok_iff.mp hfound
  cases hadmitted
  rw [Bool.true_and, if_pos hmatches] at hfound
  exact exists_find_of_follow_nil hfound

end Search

/-- A search fails at a path that it looks up. -/
theorem exists_looksAt_of_error (hname : Path.IsPlainName text)
    (hstars : hasDoubleStar text.toList = false) (hparse : PathPattern.parse text = .ok pattern)
    {e : FileError} (h : filesFound v workDir pattern = .error e) :
    ∃ p, LooksAt v workDir text p ∧ v.find p = .error e := by
  rcases bind_eq_error_iff.mp (map_eq_error_iff.mp h) with hthere | ⟨there, hthere, h⟩
  · exact ⟨workDir, .directory, map_eq_error_iff.mp hthere⟩
  · cases there with
    | false => cases h
    | true =>
      rcases cases_of_parse hname hstars hparse with ⟨hplain, rfl⟩ | ⟨-, rfl⟩
      · have hself := (matches_iff_eq hplain).mpr rfl
        exact ⟨_, .child hthere hself (.inr hplain), find_of_follow_exactly_error h⟩
      · have hlist : ∃ members, v.list workDir = .ok members := by
          have hfind := View.find_eq_some_iff.mp (View.isDirectory_iff.mp hthere)
          obtain ⟨spot, hspot, -⟩ := View.stat_eq_ok_iff.mp hfind.2
          exact View.exists_list_iff.mpr ⟨spot, hspot⟩
        obtain ⟨name, hcontains, hcovers, hfind⟩ := exists_of_follow_covering_error hlist h
        exact ⟨_, .child hthere (covers_piecesOf_iff.mp hcovers) (.inl hcontains), hfind⟩

/-- A search that comes to its end has looked up every path that it looks at. -/
theorem exists_find_of_looksAt (hname : Path.IsPlainName text)
    (hstars : hasDoubleStar text.toList = false) (hparse : PathPattern.parse text = .ok pattern)
    (h : filesFound v workDir pattern = .ok files) (hp : LooksAt v workDir text p) :
    ∃ found, v.find p = .ok found := by
  obtain ⟨found, hfound, -⟩ := exists_of_filesFound h
  obtain ⟨there, hthere, hfound⟩ := bind_eq_ok_iff.mp hfound
  cases hp with
  | directory => exact exists_map_eq_ok_iff.mp ⟨there, hthere⟩
  | @child name hdirectory hmatches hlooks =>
    obtain rfl : there = true := Except.ok.inj (hthere.symm.trans hdirectory)
    rcases cases_of_parse hname hstars hparse with ⟨hplain, rfl⟩ | ⟨hwild, rfl⟩
    · obtain rfl := String.toList_inj.mp ((matches_iff_eq hplain).mp hmatches)
      exact exists_find_of_follow_exactly hfound
    · exact exists_find_of_follow_covering (hlooks.resolve_right hwild)
        (covers_piecesOf_iff.mpr hmatches) hfound

/-! ## The list of outputs -/

theorem Path.name_child (p : Path) (name : String) : (p.child name).name = name := by
  simp [Path.name, Path.child]

theorem Path.child_injective (p : Path) : Function.Injective p.child := by
  intro m n h
  rw [← p.name_child m, h, p.name_child]

/-- Paths into one directory that are in order and different have names in strict order. -/
theorem exists_names_of_pairwise (hchild : ∀ p ∈ files, ∃ name, p = workDir.child name)
    (horder : files.Pairwise fun p q => p.le q = true) (hnodup : files.Nodup) :
    ∃ names : List String, files = names.map workDir.child ∧ names.Pairwise (· < ·) := by
  have hself : ∀ p ∈ files, workDir.child p.name = p := by
    intro p hp
    obtain ⟨name, rfl⟩ := hchild p hp
    rw [Path.name_child]
  have hfiles : files = (files.map Path.name).map workDir.child := by
    rw [List.map_map]
    exact ((List.map_congr_left hself).trans (List.map_id' files)).symm
  refine ⟨files.map Path.name, hfiles, List.pairwise_map.mpr ?_⟩
  refine (horder.and hnodup).imp_of_mem fun {p q} hp hq h => ?_
  obtain ⟨m, rfl⟩ := hchild p hp
  obtain ⟨n, rfl⟩ := hchild q hq
  rw [Path.name_child, Path.name_child]
  refine lt_of_le_of_ne (Path.le_child_iff.mp h.1) ?_
  rintro rfl
  exact h.2 rfl

/-- **Outputs in one directory.** For a pattern that is one name, the outputs are the entries of the
work directory that it matches and that are regular files, links followed, in the order of their
names and without repetitions. There is a list of them exactly if no path that the search looks up
is too long. -/
theorem outputs_of_name (hname : Path.IsPlainName text)
    (hstars : hasDoubleStar text.toList = false) :
    match outputs v workDir text with
    | .error e => ∃ p, LooksAt v workDir text p ∧ v.find p = .error ⟨.nameTooLong, p.text⟩ ∧
        e = .file ⟨.nameTooLong, p.text⟩
    | .ok files => (∀ p, LooksAt v workDir text p → ∃ found, v.find p = .ok found) ∧
        ∃ names : List String, files = names.map workDir.child ∧ names.Pairwise (· < ·) ∧
          ∀ name, name ∈ names ↔ v.Contains workDir name ∧ Matches text.toList name.toList ∧
            v.isFile (workDir.child name) = .ok true := by
  obtain ⟨pattern, hparse⟩ := exists_parse_of_name hname hstars
  rw [outputs_of_parse v workDir hparse]
  have houtput {p : Path} : IsOutput v workDir pattern p ↔ _ :=
    isOutput_iff_of_name hname hstars hparse
  cases hfiles : filesFound v workDir pattern with
  | error e =>
    obtain ⟨p, hlooks, hfind⟩ := exists_looksAt_of_error hname hstars hparse hfiles
    obtain ⟨-, -, rfl⟩ := View.find_eq_error_iff.mp hfind
    exact ⟨p, hlooks, hfind, rfl⟩
  | ok files =>
    have hmem {p : Path} := (mem_filesFound_iff hfiles (p := p)).trans houtput
    refine ⟨fun p hp => exists_find_of_looksAt hname hstars hparse hfiles hp, ?_⟩
    obtain ⟨names, rfl, hnames⟩ := exists_names_of_pairwise
      (fun p hp => (hmem.mp hp).imp fun _ h => h.1) (pairwise_filesFound hfiles)
      (nodup_filesFound hfiles)
    refine ⟨names, rfl, hnames, fun name => ?_⟩
    constructor
    · intro hname
      obtain ⟨n, hn, h⟩ := hmem.mp (List.mem_map_of_mem hname)
      obtain rfl := workDir.child_injective hn
      exact h
    · intro h
      obtain ⟨n, hn, heq⟩ := List.mem_map.mp (hmem.mpr ⟨name, rfl, h⟩)
      rwa [← workDir.child_injective heq]

/-- A directory with a file, a link to it, a link to nothing, a directory and another file. -/
def mixedEntries : View where
  tree := ⟨[(["w"], .directory), (["w", "o2"], .link "o1"), (["w", "o1"], .file [] false),
    (["w", "o3"], .link "gone"), (["w", "o4"], .directory), (["w", "p1"], .file [] false)],
    by decide⟩
  cwd := ⟨[], 0⟩
  rooted := by decide
  named := by decide +kernel
  inDirectory := rfl

theorem parse_class :
    PathPattern.parse "[!p]*" = .ok ⟨[.covering [.oneOf ⟨true, [.one 'p']⟩, .star]], false⟩ := by
  have hpieces : piecesOf "[!p]*".toList = [.oneOf ⟨true, [.one 'p']⟩, .star] := by cbv
  have hwild : ¬ Wildless "[!p]*" := fun h => (h '*' (by decide)).1 rfl
  rw [parse_of_wild ⟨by decide, by decide⟩ (by decide) hwild, hpieces]

theorem outputs_of_name_class :
    Path.IsPlainName "[!p]*" ∧ hasDoubleStar "[!p]*".toList = false ∧
      outputs mixedEntries ⟨.slash, ["w"]⟩ "[!p]*" =
        .ok (["o1", "o2"].map (Path.child ⟨.slash, ["w"]⟩)) ∧
      ∀ name, name ∈ ["o1", "o2"] ↔ mixedEntries.Contains ⟨.slash, ["w"]⟩ name ∧
        Matches "[!p]*".toList name.toList ∧
        mixedEntries.isFile (Path.child ⟨.slash, ["w"]⟩ name) = .ok true := by
  have hname : Path.IsPlainName "[!p]*" := ⟨by decide, by decide⟩
  have hstars : hasDoubleStar "[!p]*".toList = false := by decide
  have houtputs : outputs mixedEntries ⟨.slash, ["w"]⟩ "[!p]*" =
      .ok (["o1", "o2"].map (Path.child ⟨.slash, ["w"]⟩)) := by
    rw [outputs_of_parse _ _ parse_class]
    cbv
  have hlisted := @outputs_of_name mixedEntries ⟨.slash, ["w"]⟩ _ hname hstars
  rw [houtputs] at hlisted
  obtain ⟨-, names, hnames, -, hmem⟩ := hlisted
  obtain rfl := List.map_injective_iff.mpr (Path.child_injective _) hnames
  exact ⟨hname, hstars, houtputs, hmem⟩

/-! ## Links to long names -/

theorem stepsOf_of_name (hname : Path.IsPlainName text) : stepsOf text = [text] := by
  have hpieces := Path.pieces_of_not_slash hname.2
  have hlast : text.toList.getLast? ≠ some '/' := fun hlast =>
    hname.2 (List.mem_of_getLast? hlast)
  have hne : text.toList ≠ [] := by simpa using hname.ne_empty
  simp [stepsOf, hpieces, hlast, hne]

/-- A link to a name that is too long cannot be followed. -/
theorem walk_longLink {t : Tree} {links : Nat} {here : Place} {step long : String}
    (hdir : t.at? here = some .directory) (hstep : NamesEntry here step)
    (hlink : t.get? (here.address ++ [step]) = some (.link long)) (hname : Path.IsPlainName long)
    (hup : long ≠ "..") (hlong : maxNameBytes < long.utf8ByteSize) :
    walk t .find (links + 1) here [step] = .error .nameTooLong := by
  have htop : startsAtTop long = false :=
    decide_eq_false fun hhead => hname.2 (List.mem_of_head? hhead)
  rw [walk_cons hdir hstep (by simp [GoesOn]), hlink]
  simp only [Bool.and_false, reduceCtorEq, decide_false, Bool.false_eq_true, if_false, htop,
    stepsOf_of_name hname, List.append_nil]
  rw [walk, hdir]
  simp [hname.ne_dot, hname.ne_empty, hup, hstep.present, hlong]

/-- A directory with a link to a name that is too long. -/
def longLink : View where
  tree := ⟨[(["w"], .directory), (["w", "o"], .link (String.ofList (List.replicate 256 'a')))],
    by decide⟩
  cwd := ⟨[], 0⟩
  rooted := by decide
  named := by decide +kernel
  inDirectory := rfl

theorem isPlainName_replicate (n : Nat) :
    Path.IsPlainName (String.ofList (List.replicate (n + 1) 'a')) := by
  simp [Path.IsPlainName, Path.isName, List.replicate_succ]

theorem locate_longLink : longLink.locate .find ⟨.slash, ["w"]⟩ = .ok ⟨["w"], 0⟩ :=
  View.locate_eq_ok_iff.mpr ⟨by decide, .enter rfl ⟨by decide, by decide, by decide, rfl, by decide⟩
    (by simp [GoesOn]) rfl rfl .done⟩

theorem find_longLink :
    longLink.find ⟨.slash, ["w", "o"]⟩ = .error ⟨.nameTooLong, "/w/o"⟩ := by
  have hname := isPlainName_replicate 255
  have hlong : maxNameBytes < (String.ofList (List.replicate 256 'a')).utf8ByteSize := by
    decide +kernel
  have hwalk : walk longLink.tree .find maxLinks ⟨[], 0⟩ ["w", "o"] = .error .nameTooLong := by
    rw [walk_cons rfl ⟨by decide, by decide, by decide, rfl, by decide⟩ (by simp [GoesOn])]
    exact walk_longLink rfl ⟨by decide, by decide, by decide, rfl, by decide⟩ rfl hname
      (by decide +kernel) hlong
  have hlocate : longLink.locate .find ⟨.slash, ["w", "o"]⟩ = .error .nameTooLong := hwalk
  exact View.find_eq_error_iff.mpr ⟨by decide, View.stat_nameTooLong_iff.mpr hlocate, by decide⟩

/-- One such link is enough for a search to fail. -/
theorem outputs_longLink_ne (files : List Path) :
    outputs longLink ⟨.slash, ["w"]⟩ "o*" ≠ .ok files := by
  intro hlisted
  have hname : Path.IsPlainName "o*" := ⟨by decide, by decide⟩
  obtain ⟨pattern, hparse, hfiles⟩ := bind_eq_ok_iff.mp hlisted
  have hdirectory : longLink.isDirectory ⟨.slash, ["w"]⟩ = .ok true :=
    View.isDirectory_iff.mpr (View.find_eq_some_iff.mpr
      ⟨by decide, View.stat_eq_ok_iff.mpr ⟨_, locate_longLink, rfl⟩⟩)
  have hmatches : Matches "o*".toList "o".toList :=
    .self (by decide) (by decide) (by decide) (.star [] .nil)
  have hlooks : LooksAt longLink ⟨.slash, ["w"]⟩ "o*" (Path.child ⟨.slash, ["w"]⟩ "o") :=
    .child hdirectory hmatches (.inl ⟨["w"], _, locate_longLink, rfl⟩)
  obtain ⟨found, hfound⟩ := exists_find_of_looksAt hname (by decide) (mapError_eq_ok_iff.mp hparse)
    (mapError_eq_ok_iff.mp hfiles) hlooks
  cases find_longLink.symm.trans hfound

/-- So there is not always a list of the outputs. -/
theorem not_forall_outputs_listed :
    ¬ ∀ (v : View) (workDir : Path) (text : String), Path.IsPlainName text →
      hasDoubleStar text.toList = false →
      ∃ names : List String, outputs v workDir text = .ok (names.map workDir.child) ∧
        names.Pairwise (· < ·) ∧
        ∀ name, name ∈ names ↔ v.Contains workDir name ∧ Matches text.toList name.toList ∧
          v.isFile (workDir.child name) = .ok true := by
  intro h
  obtain ⟨names, hlisted, -⟩ := h longLink ⟨.slash, ["w"]⟩ "o*"
    ⟨by decide, by decide⟩ (by decide)
  exact outputs_longLink_ne _ hlisted

end HotPath
