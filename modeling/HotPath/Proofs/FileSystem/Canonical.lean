import HotPath.Proofs.FileSystem.Nesting
import HotPath.Proofs.FileSystem.Rooted

/-!
# Canonical paths

A path is canonical if it starts at the top and neither it nor a path above it is a link
(`View.IsCanonical`). A canonical path of a directory is its own resolved form
(`IsCanonical.resolve`). A resolved path is canonical if the links on the path that was resolved can
be replaced one in the other (`isCanonical_of_expands`): a straight path from the top is canonical,
and a relative one becomes so below the working directory, which stands in directories only.
-/

namespace HotPath.FileSystem

/-! ## Walks along directories -/

section Walks

variable {t : Tree} {purpose : Purpose} {links : Nat} {here mid spot : Place}
  {front back : List String}

/-- What names an entry names one in every directory. -/
theorem NamesEntry.inDirectory {name : String} (h : NamesEntry here name)
    (a : Address) : NamesEntry ⟨a, 0⟩ name := { h with present := rfl }

/-- A walk to a directory can go on. -/
theorem Walks.append (h : Walks t .find links here front mid) (hdir : t.at? mid = some .directory)
    (hpurpose : purpose ≠ .make) (hne : back ≠ [])
    (hback : ∀ links, Walks t purpose links mid back spot) :
    Walks t purpose links here (front ++ back) spot := by
  have hgoes (rest : List String) : GoesOn purpose rest := fun h => hpurpose h.1
  generalize hfind : Purpose.find = kind at h
  induction h with
  | done => exact hback _
  | stay hhere hstep _ ih => exact .stay hhere hstep (ih hdir hback)
  | up hhere _ ih => exact .up hhere (ih hdir hback)
  | fresh _ _ hnone => exact absurd (hnone.symm.trans hdir) nofun
  | atLink _ _ _ hlast =>
    rw [← hfind] at hlast
    cases hlast
  | through hhere hstep _ hlink _ _ ih =>
    have hwalks := ih hdir hback
    rw [List.append_assoc] at hwalks
    exact .through hhere hstep (hgoes _) hlink (fun h => hne (List.append_eq_nil_iff.mp h.1).2)
      hwalks
  | enter hhere hstep _ hentry hkind _ ih =>
    exact .enter hhere hstep (hgoes _) hentry hkind (ih hdir hback)

/-- From a directory the walk upwards comes to directories. -/
theorem get?_up (hrooted : t.Rooted) (hhere : t.get? here.address = some .directory) (count : Nat) :
    t.get? (Place.up^[count] here).address = some .directory := by
  induction count generalizing here with
  | zero => exact hhere
  | succ count ih =>
    rw [Function.iterate_succ_apply]
    exact ih (hrooted.up hhere)

theorem walks_up (hrooted : t.Rooted) (hhere : t.get? here.address = some .directory)
    (count : Nat) :
    Walks t purpose links here (List.replicate count "..") (Place.up^[count] here) := by
  induction count generalizing here with
  | zero => exact .done
  | succ count ih =>
    have hdir : t.at? here = some .directory := by
      unfold Tree.at?
      split
      · exact hhere
      · rfl
    rw [Function.iterate_succ_apply]
    exact .up hdir (ih (hrooted.up hhere))

theorem up_eq {a : Address} (count : Nat) :
    Place.up^[count] ⟨a, 0⟩ = ⟨List.dropLast^[count] a, 0⟩ := by
  induction count generalizing a with
  | zero => rfl
  | succ count ih =>
    rw [Function.iterate_succ_apply, Function.iterate_succ_apply, ← ih]
    rfl

theorem mem_of_mem_dropLasts {names : List String} {name : String} (count : Nat)
    (h : name ∈ List.dropLast^[count] names) : name ∈ names := by
  induction count generalizing names with
  | zero => exact h
  | succ count ih =>
    rw [Function.iterate_succ_apply] at h
    exact List.mem_of_mem_dropLast (ih h)

end Walks

/-! ## Names without `..` -/

theorem collapse_of_no_ups {front names : List String} (h : ∀ name ∈ names, name ≠ "..") :
    collapse (front ++ names) = collapse front ++ names := by
  induction names using List.reverseRecOn with
  | nil => rw [List.append_nil, List.append_nil]
  | append_singleton names last ih =>
    rw [← List.append_assoc, collapse_concat, if_neg (h last (by simp)),
      ih fun name hname => h name (List.mem_append_left _ hname), List.append_assoc]

theorem collapse_ups (front : List String) (count : Nat) :
    collapse (front ++ List.replicate count "..") = List.dropLast^[count] (collapse front) := by
  induction count with
  | zero => rw [List.replicate_zero, List.append_nil]; rfl
  | succ count ih =>
    rw [List.replicate_succ', ← List.append_assoc, collapse_concat, if_pos rfl, ih,
      Function.iterate_succ_apply']

theorem collapse_eq_self {names : List String} (h : ∀ name ∈ names, name ≠ "..") :
    collapse names = names := by
  have hcollapse : collapse ([] ++ names) = [] ++ names := collapse_of_no_ups h
  rwa [List.nil_append] at hcollapse

namespace View

variable {v : View} {p q e full : Path} {name target : String} {names : List String} {a : Address}

/-! ## Canonical paths -/

/-- The path starts at the top, and neither it nor a path above it is a link. -/
structure IsCanonical (v : View) (p : Path) : Prop where
  root : p.root = .slash
  noLink : ∀ front, front <+: p.names → v.NoLink ⟨.slash, front⟩

theorem noLink_top (v : View) : v.NoLink ⟨.slash, []⟩ := by
  intro target hlink
  obtain ⟨spot, hspot, hthere⟩ := held?_eq_some_iff.mp hlink
  cases (locate_eq_ok_iff.mp hspot).2
  cases hthere

/-- A straight path from the top is canonical. -/
theorem Straight.isCanonical (h : v.Straight p) (hroot : p.root = .slash) : v.IsCanonical p := by
  refine ⟨hroot, ?_⟩
  induction h with
  | top =>
    intro front hfront
    rw [List.prefix_nil.mp hfront]
    exact v.noLink_top
  | above => cases hroot
  | @child p name hp _ hnone ih =>
    intro front hfront
    rcases List.prefix_concat_iff.mp hfront with rfl | hfront
    · have hlink := noLink_iff.mpr hnone
      rwa [Path.child, show p.root = .slash from hroot] at hlink
    · exact ih hroot front hfront

theorem Straight.root_of_isAbsolute (h : v.Straight p) (hp : p.isAbsolute = true) :
    p.root = .slash := by
  rcases h.root with ⟨hroot, -⟩ | hrelative
  · exact hroot
  · rw [Path.isAbsolute, hrelative] at hp
    cases hp

theorem Straight.upsOf_eq_zero (h : v.Straight p) (hroot : p.root = .slash) : upsOf p = 0 := by
  rcases h.root with ⟨-, hups⟩ | hrelative
  · exact hups
  · cases hroot.symm.trans hrelative

theorem Straight.addressOf_eq (h : v.Straight p) (hroot : p.root = .slash) :
    v.addressOf p = p.names := by
  have hups := h.upsOf_eq_zero hroot
  have hstart : v.start p = ⟨[], 0⟩ := by
    rw [start, Path.isAbsolute, hroot]
    rfl
  have hnames := names_eq p
  rw [hups, List.replicate_zero, List.nil_append] at hnames
  rw [addressOf, hups, hstart, hnames]
  rfl

theorem Straight.not_ups (h : v.Straight p) : ∀ name ∈ belowOf p, name ≠ ".." := by
  induction h with
  | top => exact nofun
  | above => simp [belowOf]
  | child _ hname _ ih =>
    rw [belowOf_child hname.ne_up]
    intro n hn
    rcases List.mem_append.mp hn with hn | hn
    · exact ih n hn
    · rw [List.mem_singleton.mp hn]
      exact hname.ne_up

/-- A directory that stands in directories is named by a straight path from the top. -/
theorem straight_of_directory (hnames : ∀ name ∈ a, IsEntryPiece name)
    (hdir : v.tree.get? a = some .directory) : v.Straight ⟨.slash, a⟩ := by
  induction a using List.reverseRecOn with
  | nil => exact .top
  | append_singleton a name ih =>
    have hname := hnames name (by simp)
    have habove := ih (fun n hn => hnames n (List.mem_append_left _ hn)) (v.rooted.above hdir)
    refine .child habove hname (Option.eq_none_iff_forall_ne_some.mpr fun target hlink => ?_)
    have hspelling : v.IsSpelling (Path.child ⟨.slash, a⟩ name) :=
      ⟨_, name, rfl, habove, hname, target, hlink⟩
    obtain ⟨target', -, -, -, hentry⟩ := hspelling.exists_locate
    rw [v.addressOf_child hname.ne_up, habove.addressOf_eq rfl] at hentry
    exact absurd (hentry.symm.trans hdir) nofun

/-! ## Relative paths -/

theorem cwd_eq (hlost : v.cwd.lost = 0) : v.cwd = ⟨v.cwd.address, 0⟩ := by
  rw [← hlost]

theorem addressOf_above (v : View) (count : Nat) :
    v.addressOf ⟨.relative, List.replicate count ".."⟩ = (Place.up^[count] v.cwd).address := by
  have hstart : v.start ⟨.relative, List.replicate count ".."⟩ = v.cwd := rfl
  rw [addressOf, hstart]
  simp [upsOf, belowOf]

/-- What a straight path becomes once it is completed. -/
theorem Straight.eq_of_completes (h : v.Straight e) (hfull : v.Completes e full) :
    Path.mk full.root (collapse full.names) = ⟨.slash, v.addressOf e⟩ := by
  rcases hfull with ⟨habsolute, rfl⟩ | ⟨hrelative, hlost, rfl⟩
  · have hroot := h.root_of_isAbsolute habsolute
    have hnames := names_eq full
    rw [h.upsOf_eq_zero hroot, List.replicate_zero, List.nil_append] at hnames
    rw [h.addressOf_eq hroot, hroot, collapse_eq_self]
    rw [hnames]
    exact h.not_ups
  · have hcollapse : collapse v.cwd.address = v.cwd.address :=
      collapse_eq_self fun name hname => (v.names_cwd name hname).2
    have hnames : collapse (v.cwd.address ++ e.names) = v.addressOf e := by
      have hstart : v.start e = ⟨v.cwd.address, 0⟩ := by
        rw [start, hrelative, ← cwd_eq hlost]
        rfl
      rw [addressOf, hstart, up_eq, names_eq e, ← List.append_assoc,
        collapse_of_no_ups h.not_ups, collapse_ups, hcollapse]
    exact congrArg (Path.mk .slash) hnames

theorem Straight.of_child (h : v.Straight (p.child name)) (hname : name ≠ "..") :
    v.Straight p ∧ v.linkTarget? (p.child name) = none := by
  generalize hq : p.child name = q at h
  cases h with
  | top => exact absurd (congrArg Path.names hq) (by simp [Path.child])
  | above count =>
    have hmem : name ∈ List.replicate count ".." := by
      have hnames : p.names ++ [name] = List.replicate count ".." := congrArg Path.names hq
      rw [← hnames]
      exact List.mem_append_right _ List.mem_cons_self
    exact absurd (List.eq_of_mem_replicate hmem) hname
  | child hp _ hnone =>
    obtain ⟨rfl, rfl⟩ := child_inj hq
    exact ⟨hp, hnone⟩

/-- The directories above a straight path can be walked through. -/
theorem Straight.walks (hlost : v.cwd.lost = 0) (h : v.Straight e)
    (habove : v.Straight ⟨.slash, v.addressOf e⟩) {spot : Place}
    (hspot : v.locate .find ⟨.slash, v.addressOf e⟩ = .ok spot)
    (hdir : v.tree.get? (v.addressOf e) = some .directory) (links : Nat) :
    Walks v.tree .find links (v.start e) e.names ⟨v.addressOf e, 0⟩ := by
  induction h generalizing spot with
  | top => exact .done
  | above count =>
    have hspot : Place.mk (v.addressOf ⟨.relative, List.replicate count ".."⟩) 0 =
        Place.up^[count] v.cwd := by
      rw [v.addressOf_above, cwd_eq hlost, up_eq]
    rw [hspot]
    exact walks_up v.rooted v.inDirectory count
  | @child p name hp hname _ ih =>
    rw [v.addressOf_child hname.ne_up] at habove hspot hdir ⊢
    obtain ⟨hup, hnone⟩ := Straight.of_child (p := ⟨.slash, v.addressOf p⟩) habove hname.ne_up
    obtain ⟨mid, hmid, hstep, -⟩ :=
      exists_of_locate_child hname ((noLink_iff.mpr hnone).locate_findLink hspot)
    have hpdir := v.rooted.above hdir
    have hentry := hstep.inDirectory (v.addressOf p)
    exact (ih hup hmid hpdir).append hpdir nofun (List.cons_ne_nil _ _) fun links =>
      .enter hpdir hentry (fun h => nomatch h.1) hdir rfl .done

/-- A straight path is straight from the top, too. -/
theorem Straight.fromTop (hlost : v.cwd.lost = 0) (h : v.Straight e)
    (hshort : ¬ maxPathBytes < e.text.utf8ByteSize) :
    v.Straight ⟨.slash, v.addressOf e⟩ := by
  induction h with
  | top => exact .top
  | above count =>
    rw [v.addressOf_above]
    refine straight_of_directory (fun name hname => ?_)
      (get?_up v.rooted v.inDirectory count)
    rw [cwd_eq hlost, up_eq] at hname
    obtain ⟨hplain, hup⟩ := v.names_cwd name (mem_of_mem_dropLasts count hname)
    exact ⟨hplain.ne_empty, hplain.ne_dot, hup⟩
  | @child p name hp hname hnone ih =>
    have hup := ih (text_short_of_append hshort)
    rw [v.addressOf_child hname.ne_up]
    refine .child hup hname (Option.eq_none_iff_forall_ne_some.mpr fun target hlink => ?_)
    -- the link would be found by the relative path, too
    obtain ⟨spot, hspot, hthere⟩ := stat_eq_ok_iff.mp (linkTarget?_eq_some_iff.mp hlink)
    obtain ⟨mid, hmid, hstep, rfl⟩ := exists_of_locate_child hname hspot
    have haddress : mid.address = v.addressOf p := by
      rw [hup.address hmid, hup.addressOf_eq rfl]
    rw [haddress] at hthere
    have hpdir := v.rooted.above hthere
    have hpat : v.tree.at? ⟨v.addressOf p, 0⟩ = some .directory := hpdir
    have hentry := hstep.inDirectory (v.addressOf p)
    have hwalks : Walks v.tree .findLink maxLinks (v.start p) (p.names ++ [name])
        ⟨v.addressOf p ++ [name], 0⟩ :=
      (hp.walks hlost hup hmid hpdir maxLinks).append hpdir nofun (List.cons_ne_nil _ _)
        fun links => Walks.last hpat hentry
    have hfound := stat_eq_ok_iff.mpr ⟨_, locate_eq_ok_iff.mpr ⟨hshort, hwalks⟩, hthere⟩
    exact absurd ((linkTarget?_eq_some_iff.mpr hfound).symm.trans hnone) nofun

/-! ## Resolving -/

theorem isEntryPiece_of_isResolved (h : IsResolved p) (hname : name ∈ p.names) :
    IsEntryPiece name :=
  ⟨(h.names name hname).1.ne_empty, (h.names name hname).1.ne_dot, (h.names name hname).2⟩

/-- On a canonical path there is nothing to replace. -/
theorem IsCanonical.expand {budget : Nat} {front back : List String}
    (h : v.IsCanonical ⟨.slash, front ++ back⟩) (hnames : ∀ name ∈ back, IsEntryPiece name)
    (hnul : hasNul ⟨.slash, front ++ back⟩ = false) :
    v.expand budget [] [] ⟨.slash, front⟩ back = .ok ⟨.slash, front ++ back⟩ := by
  induction back generalizing front with
  | nil => rw [View.expand, List.append_nil]
  | cons name back ih =>
    obtain ⟨hname, hrest⟩ := List.forall_mem_cons.mp hnames
    have hassoc : front ++ name :: back = (front ++ [name]) ++ back := by simp
    rw [hassoc] at h hnul ⊢
    have hlink : v.linkTarget? (Path.child ⟨.slash, front⟩ name) = none :=
      noLink_iff.mp (h.noLink _ (List.prefix_append _ _))
    have hchild : hasNul (Path.child ⟨.slash, front⟩ name) = false := hasNul_of_append hnul
    rw [expand_name (by simp [hname.ne_empty, hname.ne_dot]) hname.ne_up (by simp [hchild]), hlink]
    exact ih h hrest hnul

/-- The canonical path of a directory is its own resolved form. -/
theorem IsCanonical.resolve (h : v.IsCanonical p) (hp : IsResolved p)
    (hdir : v.isDirectory p = .ok true) : v.resolve p = .ok p := by
  obtain ⟨hnul, hstat⟩ := find_eq_some_iff.mp (isDirectory_iff.mp hdir)
  obtain ⟨root, names⟩ := p
  obtain rfl : root = .slash := h.root
  refine resolve_eq_ok_iff.mpr ⟨⟨.slash, names⟩, ⟨.slash, names⟩, ?_, .inl ⟨rfl, rfl⟩, ?_⟩
  · have hnames : ∀ name ∈ names, IsEntryPiece name := fun name hname =>
      isEntryPiece_of_isResolved hp hname
    change v.expand v.expandLimit [] [] ⟨.slash, []⟩ names = .ok ⟨.slash, [] ++ names⟩
    exact h.expand hnames hnul
  · refine settle_eq_ok_iff.mpr ⟨?_, hnul, ?_⟩
    · exact congrArg (Path.mk .slash) (collapse_eq_self fun n hn => (hp.names n hn).2).symm
    · rw [hstat]
      exact nofun

/-- If the links on a path can be replaced one in the other, its resolved form is canonical. -/
theorem isCanonical_of_expandsTo (h : v.ExpandsTo q e)
    (hshort : e.isAbsolute = true ∨ e.text.utf8ByteSize ≤ maxPathBytes)
    (hresolve : v.resolve q = .ok p) : v.IsCanonical p := by
  obtain ⟨depth, h⟩ := h
  obtain ⟨e', full, hexpand, hfull, hsettle⟩ := resolve_eq_ok_iff.mp hresolve
  obtain rfl := h.eq_of_expand le_rfl hexpand
  have hstraight := h.straight (straight_expandStart v q)
  obtain ⟨rfl, -, -⟩ := settle_eq_ok_iff.mp hsettle
  rw [hstraight.eq_of_completes hfull]
  refine Straight.isCanonical ?_ rfl
  rcases hfull with ⟨habsolute, -⟩ | ⟨hrelative, hlost, -⟩
  · have hroot : e'.root = .slash := hstraight.root_of_isAbsolute habsolute
    rw [hstraight.addressOf_eq hroot, ← hroot]
    exact hstraight
  · have hshort := hshort.resolve_left (by rw [hrelative]; exact Bool.false_ne_true)
    exact hstraight.fromTop hlost (Nat.not_lt.mpr hshort)

end View

end HotPath.FileSystem
