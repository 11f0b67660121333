import HotPath.Proofs.FileSystem.Walking
import HotPath.Proofs.Results

/-!
# Trees with fewer entries

A tree lies within another if each of its entries has a counterpart of the same kind there: the same
target for a link, and any content for a file. What a path leads to in the smaller tree it leads to
in the larger one, up to the content of files. So taking entries away makes no file, no directory
and no link appear (`View.Within.isFile`).

* `Walks.of_within`: a walk that arrives at something arrives there in a larger tree.
* `View.remains`: of the entries of a tree, those with a counterpart of the same kind in a later
  tree.
-/

namespace HotPath.FileSystem

/-! ## Entries -/

/-- What an entry is apart from the content of a file. -/
def Entry.shape : Entry → Entry
  | .file _ _ => .file [] false
  | .link target => .link target
  | .directory => .directory

theorem Entry.eq_directory_of_shape {e : Entry} (h : e.shape = Entry.shape .directory) :
    e = .directory := by
  cases e with
  | file | link => cases h
  | directory => rfl

theorem Entry.eq_link_of_shape {e : Entry} {target : String}
    (h : e.shape = Entry.shape (.link target)) : e = .link target := by
  cases e with
  | file | directory => cases h
  | link => exact h

theorem Entry.exists_file_of_shape {e : Entry} {content : Bytes} {executable : Bool}
    (h : e.shape = Entry.shape (.file content executable)) :
    ∃ content' executable', e = .file content' executable' := by
  cases e with
  | file content' executable' => exact ⟨content', executable', rfl⟩
  | link | directory => cases h

theorem Entry.isLink_eq_of_shape {e e' : Entry} (h : e'.shape = e.shape) :
    e'.isLink = e.isLink := by
  cases e <;> cases e' <;> first | rfl | cases h

namespace Tree

variable {t t' t'' : Tree}

/-- Each entry of `t` has a counterpart of the same kind in `t'`. -/
def Within (t t' : Tree) : Prop :=
  ∀ a e, t.get? a = some e → ∃ e', t'.get? a = some e' ∧ e'.shape = e.shape

theorem Within.refl (t : Tree) : t.Within t := fun _ e h => ⟨e, h, rfl⟩

theorem Within.trans (h : t.Within t') (h' : t'.Within t'') : t.Within t'' := by
  intro a e hentry
  obtain ⟨e', hentry', hshape⟩ := h a e hentry
  obtain ⟨e'', hentry'', hshape'⟩ := h' a e' hentry'
  exact ⟨e'', hentry'', hshape'.trans hshape⟩

theorem Within.directory (h : t.Within t') {a : Address} (ha : t.get? a = some .directory) :
    t'.get? a = some .directory := by
  obtain ⟨e', hentry, hshape⟩ := h a _ ha
  rw [hentry, Entry.eq_directory_of_shape hshape]

theorem Within.link (h : t.Within t') {a : Address} {target : String}
    (ha : t.get? a = some (.link target)) : t'.get? a = some (.link target) := by
  obtain ⟨e', hentry, hshape⟩ := h a _ ha
  rw [hentry, Entry.eq_link_of_shape hshape]

theorem Within.at? (h : t.Within t') {p : Place} {e : Entry} (hp : t.at? p = some e) :
    ∃ e', t'.at? p = some e' ∧ e'.shape = e.shape := by
  unfold Tree.at? at hp ⊢
  split at hp
  · rename_i hlost
    rw [if_pos hlost]
    exact h _ _ hp
  · rename_i hlost
    rw [if_neg hlost]
    exact ⟨e, hp, rfl⟩

theorem Within.at?_directory (h : t.Within t') {p : Place} (hp : t.at? p = some .directory) :
    t'.at? p = some .directory := by
  obtain ⟨e', hentry, hshape⟩ := h.at? hp
  rw [hentry, Entry.eq_directory_of_shape hshape]

theorem within_restrict (t : Tree) (keep : Address → Bool) : (t.restrict keep).Within t := by
  intro a e h
  by_cases ha : a = []
  · subst ha
    exact ⟨e, h, rfl⟩
  · rw [get?_restrict t keep ha] at h
    split at h
    · exact ⟨e, h, rfl⟩
    · cases h

theorem within_erase (t : Tree) (a : Address) : (t.erase a).Within t := t.within_restrict _

/-! ## Lists of entries -/

theorem mem_entries_iff (t : Tree) {a : Address} {e : Entry} (ha : a ≠ []) :
    (a, e) ∈ t.entries ↔ t.get? a = some e := by
  refine ⟨fun hmem => ?_, t.mem_entries_of_get? ha⟩
  obtain ⟨before, after, hentries⟩ := List.append_of_mem hmem
  have hnodup := t.nodup_addresses
  rw [hentries, List.map_append, List.map_cons, List.nodup_append'] at hnodup
  rw [get?, if_neg ha, List.lookup_eq_some_iff]
  refine ⟨before, after, hentries, fun b hb => ?_⟩
  have hne : b.1 ≠ a := by
    rintro rfl
    exact hnodup.2.2 (List.mem_map_of_mem hb) List.mem_cons_self
  simpa using hne.symm

theorem mem_members_iff (t : Tree) {a : Address} {name : String} {e : Entry} :
    (name, e) ∈ t.members a ↔ t.get? (a ++ [name]) = some e := by
  rw [← t.mem_entries_iff (by simp), members, List.mem_filterMap]
  constructor
  · rintro ⟨⟨b, e'⟩, hmem, h⟩
    dsimp only at h
    split at h
    · rename_i n up hb
      split at h
      · rename_i hup
        cases h
        have hb' : b = a ++ [name] := by
          rw [← List.reverse_reverse b, hb, List.reverse_cons, hup]
        rwa [hb'] at hmem
      · cases h
    · cases h
  · intro hmem
    refine ⟨(a ++ [name], e), hmem, ?_⟩
    simp

theorem mem_directoriesBelow_iff (t : Tree) {a : Address} {names : List String} :
    names ∈ t.directoriesBelow a ↔ names ≠ [] ∧ t.get? (a ++ names) = some .directory := by
  rw [directoriesBelow, List.mem_filterMap]
  constructor
  · rintro ⟨⟨b, e⟩, hmem, h⟩
    dsimp only at h
    split at h
    · rename_i hbelow
      obtain ⟨rfl, hprefix, hne⟩ := hbelow
      cases h
      obtain ⟨names, rfl⟩ := List.isPrefixOf_iff_prefix.mp hprefix
      have hnames : names ≠ [] := by
        rintro rfl
        exact hne (List.append_nil a)
      rw [List.drop_left]
      exact ⟨hnames, (t.mem_entries_iff (by simp [hnames])).mp hmem⟩
    · cases h
  · rintro ⟨hnames, hget⟩
    refine ⟨(a ++ names, .directory), (t.mem_entries_iff (by simp [hnames])).mpr hget, ?_⟩
    simp [hnames]

end Tree

/-! ## Walks -/

section Walks

variable {t t' : Tree} {purpose : Purpose} {links : Nat} {here spot : Place} {steps : List String}

theorem Walks.of_within (hwithin : t.Within t') (h : Walks t purpose links here steps spot)
    {e : Entry} (hspot : t.at? spot = some e) : Walks t' purpose links here steps spot := by
  induction h with
  | done => exact .done
  | stay hdir hstep _ ih => exact .stay (hwithin.at?_directory hdir) hstep (ih hspot)
  | up hdir _ ih => exact .up (hwithin.at?_directory hdir) (ih hspot)
  | fresh _ _ hnone =>
    change t.get? _ = some e at hspot
    rw [hnone] at hspot
    cases hspot
  | atLink hdir hstep hlink hpurpose =>
    exact .atLink (hwithin.at?_directory hdir) hstep (hwithin.link hlink) hpurpose
  | through hdir hstep hgoes hlink hlast _ ih =>
    exact .through (hwithin.at?_directory hdir) hstep hgoes (hwithin.link hlink) hlast (ih hspot)
  | enter hdir hstep hgoes hentry hkind _ ih =>
    obtain ⟨e', hentry', hshape⟩ := hwithin _ _ hentry
    exact .enter (hwithin.at?_directory hdir) hstep hgoes hentry'
      ((Entry.isLink_eq_of_shape hshape).trans hkind) (ih hspot)

/-- A walk that goes on starts in a directory. -/
theorem Walks.directory (h : Walks t purpose links here steps spot) (hsteps : steps ≠ []) :
    t.at? here = some .directory := by
  cases h with
  | done => exact absurd rfl hsteps
  | stay hdir | up hdir | fresh hdir | atLink hdir | through hdir | enter hdir => exact hdir

/-- A walk along two stretches of steps is a walk along the first and then along the second. -/
theorem Walks.cut {front back : List String}
    (h : Walks t purpose links here (front ++ back) spot) (hback : back ≠ []) :
    ∃ mid links', Walks t .find links here front mid ∧ Walks t purpose links' mid back spot := by
  generalize hsteps : front ++ back = steps at h
  induction h generalizing front with
  | done => exact absurd (List.append_eq_nil_iff.mp hsteps).2 hback
  | @stay links here _ _ _ hdir hstep hwalks ih =>
    cases front with
    | nil =>
      obtain rfl : back = _ := hsteps
      exact ⟨here, links, .done, .stay hdir hstep hwalks⟩
    | cons step front =>
      obtain ⟨rfl, hrest⟩ := List.cons.inj hsteps
      obtain ⟨mid, links', hmid, hend⟩ := ih hrest
      exact ⟨mid, links', .stay hdir hstep hmid, hend⟩
  | @up links here _ _ hdir hwalks ih =>
    cases front with
    | nil =>
      obtain rfl : back = _ := hsteps
      exact ⟨here, links, .done, .up hdir hwalks⟩
    | cons step front =>
      obtain ⟨rfl, hrest⟩ := List.cons.inj hsteps
      obtain ⟨mid, links', hmid, hend⟩ := ih hrest
      exact ⟨mid, links', .up hdir hmid, hend⟩
  | @fresh links here _ hdir hstep hnone =>
    cases front with
    | nil =>
      obtain rfl : back = _ := hsteps
      exact ⟨here, links, .done, .fresh hdir hstep hnone⟩
    | cons step front =>
      have hrest := List.append_eq_nil_iff.mp (List.cons.inj hsteps).2
      exact absurd hrest.2 hback
  | @atLink links here _ _ hdir hstep hlink hpurpose =>
    cases front with
    | nil =>
      obtain rfl : back = _ := hsteps
      exact ⟨here, links, .done, .atLink hdir hstep hlink hpurpose⟩
    | cons step front =>
      have hrest := List.append_eq_nil_iff.mp (List.cons.inj hsteps).2
      exact absurd hrest.2 hback
  | @through links here _ _ target _ hdir hstep hgoes hlink hlast hwalks ih =>
    cases front with
    | nil =>
      obtain rfl : back = _ := hsteps
      exact ⟨here, links + 1, .done, .through hdir hstep hgoes hlink hlast hwalks⟩
    | cons step front =>
      obtain ⟨rfl, hrest⟩ := List.cons.inj hsteps
      have hjoined : (stepsOf target ++ front) ++ back = stepsOf target ++ _ :=
        (List.append_assoc ..).trans (congrArg _ hrest)
      obtain ⟨mid, links', hmid, hend⟩ := ih hjoined
      exact ⟨mid, links', .through hdir hstep (by simp [GoesOn]) hlink (by simp) hmid, hend⟩
  | @enter links here _ _ _ _ hdir hstep hgoes hentry hkind hwalks ih =>
    cases front with
    | nil =>
      obtain rfl : back = _ := hsteps
      exact ⟨here, links, .done, .enter hdir hstep hgoes hentry hkind hwalks⟩
    | cons step front =>
      obtain ⟨rfl, hrest⟩ := List.cons.inj hsteps
      obtain ⟨mid, links', hmid, hend⟩ := ih hrest
      exact ⟨mid, links', .enter hdir hstep (by simp [GoesOn]) hentry hkind hmid, hend⟩

/-- A walk along two stretches of steps comes through a directory behind the first. -/
theorem Walks.split {front back : List String}
    (h : Walks t purpose links here (front ++ back) spot) (hback : back ≠ []) :
    ∃ mid, Walks t .find links here front mid ∧ t.at? mid = some .directory := by
  obtain ⟨mid, links', hmid, hend⟩ := h.cut hback
  exact ⟨mid, hmid, hend.directory hback⟩

end Walks

/-! ## The length of paths -/

theorem utf8ByteSize_intercalate_append (front back : List String) :
    ("/".intercalate front).utf8ByteSize ≤ ("/".intercalate (front ++ back)).utf8ByteSize := by
  by_cases hfront : front = []
  · subst hfront
    exact Nat.zero_le _
  by_cases hback : back = []
  · rw [hback, List.append_nil]
  · rw [String.intercalate_append_of_ne_nil hfront hback, String.utf8ByteSize_append,
      String.utf8ByteSize_append]
    omega

/-- What stands in front of a path that is short enough is short enough. -/
theorem text_short_of_append {root : Root} {front back : List String}
    (h : ¬ maxPathBytes < (Path.mk root (front ++ back)).text.utf8ByteSize) :
    ¬ maxPathBytes < (Path.mk root front).text.utf8ByteSize := by
  by_cases hempty : root = .relative ∧ front = []
  · rw [Path.text, if_pos hempty]
    decide
  · have hnonempty : ¬ (root = .relative ∧ front ++ back = []) := by
      simp only [List.append_eq_nil_iff]
      tauto
    have hle := utf8ByteSize_intercalate_append front back
    rw [Path.text, if_neg hnonempty, String.utf8ByteSize_append] at h
    rw [Path.text, if_neg hempty, String.utf8ByteSize_append]
    dsimp only at h ⊢
    omega

/-! ## Views -/

namespace View

variable {v v' v'' : View} {purpose : Purpose} {p : Path} {e : Entry}

theorem stat_eq_ok_iff :
    v.stat purpose p = .ok e ↔
      ∃ spot, v.locate purpose p = .ok spot ∧ v.tree.at? spot = some e := by
  unfold stat
  rw [bind_eq_ok_iff]
  refine exists_congr fun spot => and_congr_right fun _ => ?_
  cases v.tree.at? spot with
  | none => simp
  | some e' => simp

theorem locate_eq_ok_iff {spot : Place} :
    v.locate purpose p = .ok spot ↔
      ¬ maxPathBytes < p.text.utf8ByteSize ∧
        Walks v.tree purpose maxLinks (v.start p) p.names spot := by
  unfold locate
  by_cases hlong : maxPathBytes < p.text.utf8ByteSize
  · simp [hlong]
  · rw [if_neg hlong, walk_eq_ok_iff]
    simp [hlong]

theorem find_eq_some_iff :
    v.find p = .ok (some e) ↔ hasNul p = false ∧ v.stat .find p = .ok e := by
  unfold find
  cases hasNul p with
  | true => simp
  | false =>
    simp only [Bool.false_eq_true, if_false, true_and]
    split
    · rename_i hstat
      simp [hstat]
    · rename_i hstat
      simp [hstat]
    · rename_i hstat
      simp [hstat]

theorem find_eq_error_iff {fault : FileError} :
    v.find p = .error fault ↔
      hasNul p = false ∧ v.stat .find p = .error .nameTooLong ∧ fault = ⟨.nameTooLong, p.text⟩ := by
  unfold find
  cases hasNul p with
  | true => simp
  | false =>
    simp only [Bool.false_eq_true, if_false, true_and]
    split
    · rename_i hstat
      simp [hstat]
    · rename_i hstat
      simp [hstat, eq_comm]
    · rename_i cause hlong hstat
      have hother : cause ≠ .nameTooLong := hlong
      simp [hstat, hother]

theorem stat_nameTooLong_iff :
    v.stat purpose p = .error .nameTooLong ↔ v.locate purpose p = .error .nameTooLong := by
  unfold stat
  cases v.locate purpose p with
  | error cause => simp [bind, Except.bind]
  | ok spot => cases hentry : v.tree.at? spot <;> simp [bind, Except.bind, hentry]

theorem isFile_iff :
    v.isFile p = .ok true ↔
      ∃ content executable, v.find p = .ok (some (.file content executable)) := by
  unfold isFile read?
  cases v.find p with
  | error => simp [Except.map]
  | ok found =>
    cases found with
    | none => simp [Except.map]
    | some e => cases e <;> simp [Except.map]

theorem isDirectory_iff : v.isDirectory p = .ok true ↔ v.find p = .ok (some .directory) := by
  unfold isDirectory
  cases v.find p with
  | error => simp [Except.map]
  | ok found => simp [Except.map]

theorem isPresent_iff : v.isPresent p = .ok true ↔ ∃ e, v.find p = .ok (some e) := by
  unfold isPresent
  cases v.find p with
  | error => simp [Except.map]
  | ok found => cases found <;> simp [Except.map]

/-- The same place to look from, and each entry has a counterpart of the same kind in `v'`. -/
structure Within (v v' : View) : Prop where
  cwd : v.cwd = v'.cwd
  tree : v.tree.Within v'.tree

theorem Within.refl (v : View) : v.Within v := ⟨rfl, .refl v.tree⟩

theorem Within.trans (h : v.Within v') (h' : v'.Within v'') : v.Within v'' :=
  ⟨h.cwd.trans h'.cwd, h.tree.trans h'.tree⟩

theorem Within.start (h : v.Within v') (p : Path) : v.start p = v'.start p := by
  rw [View.start, View.start, h.cwd]

theorem Within.locate (h : v.Within v') {spot : Place} (hspot : v.locate purpose p = .ok spot)
    (hthere : v.tree.at? spot = some e) : v'.locate purpose p = .ok spot := by
  rw [locate_eq_ok_iff] at hspot ⊢
  rw [← h.start p]
  exact ⟨hspot.1, hspot.2.of_within h.tree hthere⟩

theorem Within.stat (h : v.Within v') (hstat : v.stat purpose p = .ok e) :
    ∃ e', v'.stat purpose p = .ok e' ∧ e'.shape = e.shape := by
  obtain ⟨spot, hspot, hthere⟩ := stat_eq_ok_iff.mp hstat
  obtain ⟨e', hthere', hshape⟩ := h.tree.at? hthere
  exact ⟨e', stat_eq_ok_iff.mpr ⟨spot, h.locate hspot hthere, hthere'⟩, hshape⟩

theorem Within.find (h : v.Within v') (hfind : v.find p = .ok (some e)) :
    ∃ e', v'.find p = .ok (some e') ∧ e'.shape = e.shape := by
  obtain ⟨hnul, hstat⟩ := find_eq_some_iff.mp hfind
  obtain ⟨e', hstat', hshape⟩ := h.stat hstat
  exact ⟨e', find_eq_some_iff.mpr ⟨hnul, hstat'⟩, hshape⟩

/-- Where entries are taken away, no file appears. -/
theorem Within.isFile (h : v.Within v') (hp : v.isFile p = .ok true) : v'.isFile p = .ok true := by
  obtain ⟨content, executable, hfind⟩ := isFile_iff.mp hp
  obtain ⟨e', hfind', hshape⟩ := h.find hfind
  obtain ⟨content', executable', rfl⟩ := Entry.exists_file_of_shape hshape
  exact isFile_iff.mpr ⟨content', executable', hfind'⟩

theorem Within.isDirectory (h : v.Within v') (hp : v.isDirectory p = .ok true) :
    v'.isDirectory p = .ok true := by
  rw [isDirectory_iff] at hp ⊢
  obtain ⟨e', hfind', hshape⟩ := h.find hp
  rw [hfind', Entry.eq_directory_of_shape hshape]

theorem Within.isPresent (h : v.Within v') (hp : v.isPresent p = .ok true) :
    v'.isPresent p = .ok true := by
  obtain ⟨e, hfind⟩ := isPresent_iff.mp hp
  obtain ⟨e', hfind', -⟩ := h.find hfind
  exact isPresent_iff.mpr ⟨e', hfind'⟩

/-- What stands in front of a path that leads to something leads to a directory. -/
theorem exists_locate_of_append {back : List String} (hback : back ≠ [])
    (h : v.find ⟨p.root, p.names ++ back⟩ = .ok (some e)) :
    ∃ spot, v.locate .find p = .ok spot ∧ v.tree.at? spot = some .directory := by
  obtain ⟨-, hstat⟩ := find_eq_some_iff.mp h
  obtain ⟨spot, hspot, -⟩ := stat_eq_ok_iff.mp hstat
  obtain ⟨hshort, hwalks⟩ := locate_eq_ok_iff.mp hspot
  obtain ⟨mid, hmid, hthere⟩ := hwalks.split hback
  exact ⟨mid, locate_eq_ok_iff.mpr ⟨text_short_of_append hshort, hmid⟩, hthere⟩

theorem hasNul_of_append {root : Root} {front back : List String}
    (h : hasNul ⟨root, front ++ back⟩ = false) : hasNul ⟨root, front⟩ = false := by
  rw [hasNul, List.any_append, Bool.or_eq_false_iff] at h
  exact h.1

/-- What stands in front of a path that leads to something leads to something. -/
theorem exists_find_of_append {back : List String}
    (h : v.find ⟨p.root, p.names ++ back⟩ = .ok (some e)) :
    ∃ e', v.find p = .ok (some e') ∧ (back ≠ [] → e' = .directory) := by
  by_cases hback : back = []
  · rw [hback, List.append_nil] at h
    exact ⟨e, h, fun hne => absurd hback hne⟩
  · obtain ⟨spot, hspot, hthere⟩ := exists_locate_of_append hback h
    have hnul := hasNul_of_append (find_eq_some_iff.mp h).1
    have hstat := stat_eq_ok_iff.mpr ⟨spot, hspot, hthere⟩
    exact ⟨.directory, find_eq_some_iff.mpr ⟨hnul, hstat⟩, fun _ => rfl⟩

/-! ## Listing -/

section Listing

variable {names : List String} {name : String}

theorem list_of_locate {a : Address} (h : v.locate .find p = .ok ⟨a, 0⟩) :
    v.list p = .ok (v.tree.members a) := by
  rw [list, h]
  rfl

theorem exists_list_iff :
    (∃ members, v.list p = .ok members) ↔ ∃ spot, v.locate .find p = .ok spot := by
  unfold list
  split
  · rename_i a hlocate
    simp [hlocate]
  · rename_i spot _ hlocate
    simp [hlocate]
  · rename_i cause hlocate
    simp [hlocate]

theorem exists_of_mem_list {members : List (String × Entry)} (h : v.list p = .ok members)
    (hmember : (name, e) ∈ members) :
    ∃ a, v.locate .find p = .ok ⟨a, 0⟩ ∧ v.tree.get? (a ++ [name]) = some e := by
  unfold list at h
  split at h
  · rename_i a hlocate
    cases h
    exact ⟨a, hlocate, (v.tree.mem_members_iff).mp hmember⟩
  · cases h
    cases hmember
  · cases h

theorem mem_directoriesBelow_iff :
    names ∈ v.directoriesBelow p ↔ ∃ a, v.locate .find p = .ok ⟨a, 0⟩ ∧ names ≠ [] ∧
      v.tree.get? (a ++ names) = some .directory := by
  unfold directoriesBelow
  split
  · rename_i a hlocate
    rw [v.tree.mem_directoriesBelow_iff, hlocate]
    constructor
    · intro h
      exact ⟨a, rfl, h⟩
    · rintro ⟨b, hb, h⟩
      cases hb
      exact h
  · rename_i hlost
    constructor
    · intro h
      cases h
    · rintro ⟨a, hlocate, -⟩
      exact absurd hlocate (hlost a)

end Listing

/-! ## What is left of a tree -/

/-- There is an entry of the same kind at this address later, or the directory is worked in. -/
def persists (v later : View) (a : Address) : Bool :=
  a.isPrefixOf v.cwd.address ||
    decide ((v.tree.get? a).map Entry.shape = (later.tree.get? a).map Entry.shape)

theorem persists_dropLast {later : View} {a : Address} (ha : v.tree.get? a = some e)
    (h : v.persists later a = true) : v.persists later a.dropLast = true := by
  simp only [persists, Bool.or_eq_true, List.isPrefixOf_iff_prefix, decide_eq_true_eq] at h ⊢
  refine h.imp (List.dropLast_prefix a).trans fun hshape => ?_
  rw [ha, Option.map_some, eq_comm, Option.map_eq_some_iff] at hshape
  obtain ⟨e', ha', -⟩ := hshape
  rw [v.rooted.dropLast ha, later.rooted.dropLast ha']

/-- The entries that are there later as well, of the same kind: those of the later tree that are not
new, with what they held before. Whoever works in a directory keeps it. -/
def remains (v later : View) : View where
  tree := v.tree.restrict (v.persists later)
  cwd := v.cwd
  rooted := by
    refine v.rooted.restrict fun entry hmem hkept => ?_
    by_cases ha : entry.1 = []
    · rw [ha] at hkept ⊢
      exact hkept
    · exact persists_dropLast ((v.tree.mem_entries_iff ha).mp hmem) hkept
  named := v.named.restrict _
  inDirectory := by
    have hkept : v.persists later v.cwd.address = true := by simp [persists]
    rw [Tree.get?_restrict_of_keep _ hkept, v.inDirectory]

theorem remains_within (v later : View) : (v.remains later).Within v :=
  ⟨rfl, v.tree.within_restrict _⟩

end View

end HotPath.FileSystem
