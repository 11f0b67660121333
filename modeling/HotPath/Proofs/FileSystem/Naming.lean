import HotPath.Proofs.FileSystem.Shrinking
import HotPath.Proofs.FileSystem.Writing

/-!
# The entries that paths name

A path names an entry, and if that is a link it leads to another. A walk that follows a link at its
end first comes to the link (`Walks.exists_findLink`).

No walk goes on behind a dead end: a place where nothing is, a file, or a link that leads to no
directory. So a path names the same place whatever is put at a dead end in the place of what is
there (`Walks.of_offEnds`), and it names the same entry unless it names the dead end itself.

* `View.held?`: the entry that a path names.
* `View.held?_write`, `View.held?_write_of_ne`, `View.held?_unlink_of_ne`: what writing and deleting
  make of it.
-/

namespace HotPath.FileSystem

/-- Where the target of a link at `a` is looked for. -/
def linkStart (a : Address) (target : String) : Place :=
  if startsAtTop target then ⟨[], 0⟩ else ⟨a.dropLast, 0⟩

/-! ## Walks to a link -/

section Walks

variable {t t' : Tree} {purpose : Purpose} {links links' : Nat} {here spot spot' : Place}
  {steps : List String}

theorem NamesEntry.linkStart_eq {step : String} (h : NamesEntry here step) (target : String) :
    linkStart (here.address ++ [step]) target =
      if startsAtTop target then ⟨[], 0⟩ else here := by
  obtain ⟨address, lost⟩ := here
  obtain rfl : lost = 0 := h.present
  rw [linkStart, List.dropLast_concat]

theorem Walks.of_le (h : Walks t purpose links here steps spot) (hle : links ≤ links') :
    Walks t purpose links' here steps spot := by
  induction h generalizing links' with
  | done => exact .done
  | stay hdir hstep _ ih => exact .stay hdir hstep (ih hle)
  | up hdir _ ih => exact .up hdir (ih hle)
  | fresh hdir hstep hnone => exact .fresh hdir hstep hnone
  | atLink hdir hstep hlink hpurpose => exact .atLink hdir hstep hlink hpurpose
  | through hdir hstep hgoes hlink hlast _ ih =>
    obtain ⟨k, rfl⟩ := Nat.exists_eq_add_of_le' (Nat.lt_of_lt_of_le (Nat.succ_pos _) hle)
    exact .through hdir hstep hgoes hlink hlast (ih (Nat.le_of_succ_le_succ hle))
  | enter hdir hstep hgoes hentry hkind _ ih => exact .enter hdir hstep hgoes hentry hkind (ih hle)

/-- However many links may be followed, a walk arrives at one place. -/
theorem Walks.unique (h : Walks t purpose links here steps spot)
    (h' : Walks t purpose links' here steps spot') : spot = spot' := by
  have hwalk := walk_of_walks (h.of_le (Nat.le_max_left links links'))
  have hwalk' := walk_of_walks (h'.of_le (Nat.le_max_right links links'))
  exact Except.ok.inj (hwalk.symm.trans hwalk')

/-- Before a walk follows a link at its end, it has come to the link. -/
theorem Walks.exists_findLink (h : Walks t purpose links here steps spot) :
    ∃ mid, Walks t .findLink links here steps mid ∧
      (mid = spot ∨ ∃ target links', t.at? mid = some (.link target) ∧
        Walks t purpose links' (linkStart mid.address target) (stepsOf target) spot) := by
  induction h with
  | done => exact ⟨_, .done, .inl rfl⟩
  | stay hdir hstep _ ih =>
    obtain ⟨mid, hmid, hend⟩ := ih
    exact ⟨mid, .stay hdir hstep hmid, hend⟩
  | up hdir _ ih =>
    obtain ⟨mid, hmid, hend⟩ := ih
    exact ⟨mid, .up hdir hmid, hend⟩
  | fresh hdir hstep hnone => exact ⟨_, .fresh hdir hstep hnone, .inl rfl⟩
  | atLink hdir hstep hlink _ => exact ⟨_, .atLink hdir hstep hlink rfl, .inl rfl⟩
  | @through links here spot step target rest hdir hstep _ hlink _ hwalks ih =>
    by_cases hrest : rest = []
    · subst hrest
      rw [List.append_nil, ← hstep.linkStart_eq target] at hwalks
      exact ⟨_, .atLink hdir hstep hlink rfl, .inr ⟨target, links, hlink, hwalks⟩⟩
    · obtain ⟨mid, hmid, hend⟩ := ih
      exact ⟨mid, .through hdir hstep (by simp [GoesOn]) hlink (by simp [hrest]) hmid, hend⟩
  | enter hdir hstep _ hentry hkind _ ih =>
    obtain ⟨mid, hmid, hend⟩ := ih
    exact ⟨mid, .enter hdir hstep (by simp [GoesOn]) hentry hkind hmid, hend⟩

/-- A walk that ends at no link has none to follow. -/
theorem Walks.find_of_findLink (h : Walks t .findLink links here steps spot)
    (hspot : ∀ target, t.at? spot ≠ some (.link target)) : Walks t .find links here steps spot := by
  induction h with
  | done => exact .done
  | stay hdir hstep _ ih => exact .stay hdir hstep (ih hspot)
  | up hdir _ ih => exact .up hdir (ih hspot)
  | fresh hdir hstep hnone => exact .fresh hdir hstep hnone
  | atLink _ _ hlink _ => exact absurd hlink (hspot _)
  | through hdir hstep _ hlink _ _ ih =>
    exact .through hdir hstep (by simp [GoesOn]) hlink (by simp) (ih hspot)
  | enter hdir hstep _ hentry hkind _ ih =>
    exact .enter hdir hstep (by simp [GoesOn]) hentry hkind (ih hspot)

/-- One more name leads to the entry of that name, be it there or not. -/
theorem Walks.last (hdir : t.at? here = some .directory) {step : String}
    (hstep : NamesEntry here step) :
    Walks t .findLink links here [step] ⟨here.address ++ [step], 0⟩ := by
  cases hentry : t.get? (here.address ++ [step]) with
  | none => exact .fresh hdir hstep hentry
  | some e =>
    cases e with
    | link target => exact .atLink hdir hstep hentry rfl
    | file content executable => exact .enter hdir hstep (by simp [GoesOn]) hentry rfl .done
    | directory => exact .enter hdir hstep (by simp [GoesOn]) hentry rfl .done

/-! ## Dead ends -/

/-- No walk goes on behind the place `a`: there is no directory, and no link to one. -/
structure DeadEnd (t : Tree) (a : Address) : Prop where
  replaceable : Replaceable t a
  not_link : ∀ target links mid, t.get? a = some (.link target) →
    Walks t .find links (linkStart a target) (stepsOf target) mid → t.at? mid ≠ some .directory

theorem deadEnd_of_not_link {a : Address} (hreplaceable : Replaceable t a)
    (hlink : ∀ target, t.get? a ≠ some (.link target)) : DeadEnd t a :=
  ⟨hreplaceable, fun target _ _ h => absurd h (hlink target)⟩

theorem deadEnd_of_file {a : Address} {content : Bytes} {executable : Bool}
    (h : t.get? a = some (.file content executable)) : DeadEnd t a := by
  apply deadEnd_of_not_link
  · rw [Replaceable, h]
    exact nofun
  · intro target
    rw [h]
    exact nofun

theorem deadEnd_of_none {a : Address} (h : t.get? a = none) : DeadEnd t a := by
  apply deadEnd_of_not_link
  · rw [Replaceable, h]
    exact nofun
  · intro target
    rw [h]
    exact nofun

theorem DeadEnd.of_within {a : Address} (hwithin : t.Within t') (h : DeadEnd t' a) :
    DeadEnd t a := by
  constructor
  · intro hdir
    exact h.replaceable (hwithin.directory hdir)
  · intro target links mid hlink hwalks hmid
    exact h.not_link target links mid (hwithin.link hlink) (hwalks.of_within hwithin hmid)
      (hwithin.at?_directory hmid)

/-- The trees have the same entries except at one place. -/
def Tree.SameOff (a : Address) (t t' : Tree) : Prop := ∀ b, b ≠ a → t'.get? b = t.get? b

theorem Tree.sameOff_insert (t : Tree) (a : Address) (e : Entry) : SameOff a t (t.insert a e) :=
  fun _ hb => t.get?_insert_of_ne e hb

theorem Tree.sameOff_erase (t : Tree) (a : Address) : SameOff a t (t.erase a) :=
  fun _ hb => t.get?_erase_of_ne hb

theorem Tree.SameOff.symm {a : Address} (h : SameOff a t t') : SameOff a t' t :=
  fun b hb => (h b hb).symm

theorem Tree.SameOff.at? {a : Address} (h : SameOff a t t') {p : Place} (hp : p ≠ ⟨a, 0⟩) :
    t'.at? p = t.at? p := by
  obtain ⟨address, lost⟩ := p
  unfold Tree.at?
  split
  · rename_i hlost
    apply h
    rintro rfl
    exact hp (Place.mk.injEq .. ▸ ⟨rfl, hlost⟩)
  · rfl

/-- The trees have the same entries except at dead ends of the first. -/
def Tree.SameOffEnds (t t' : Tree) : Prop := ∀ a, ¬ DeadEnd t a → t'.get? a = t.get? a

theorem Tree.SameOff.sameOffEnds {a : Address} (h : SameOff a t t') (hdead : DeadEnd t a) :
    t.SameOffEnds t' := by
  intro b hb
  apply h
  rintro rfl
  exact hb hdead

theorem not_deadEnd_of_directory {a : Address} (h : t.get? a = some .directory) :
    ¬ DeadEnd t a := fun hdead => hdead.replaceable h

theorem Tree.SameOffEnds.at?_directory (h : t.SameOffEnds t') {p : Place}
    (hp : t.at? p = some .directory) : t'.at? p = some .directory := by
  unfold Tree.at? at hp ⊢
  split at hp
  · rename_i hlost
    rw [if_pos hlost, h _ (not_deadEnd_of_directory hp), hp]
  · rename_i hlost
    exact if_neg hlost

/-- A link by which a walk goes on is no dead end. -/
theorem not_deadEnd_of_through {step target : String} {rest : List String}
    (hstep : NamesEntry here step)
    (hlink : t.get? (here.address ++ [step]) = some (.link target)) (hrest : rest ≠ [])
    (hwalks : Walks t purpose links (if startsAtTop target then ⟨[], 0⟩ else here)
      (stepsOf target ++ rest) spot) : ¬ DeadEnd t (here.address ++ [step]) := by
  intro hdead
  obtain ⟨mid, hmid, hdirectory⟩ := hwalks.split hrest
  rw [← hstep.linkStart_eq target] at hmid
  exact hdead.not_link target links mid hlink hmid hdirectory

/-- A walk to an entry arrives where it did before dead ends have been changed. -/
theorem Walks.of_offEnds (hoff : t.SameOffEnds t')
    (h : Walks t .findLink links here steps spot) : Walks t' .findLink links here steps spot := by
  induction h with
  | done => exact .done
  | stay hdir hstep _ ih => exact .stay (hoff.at?_directory hdir) hstep ih
  | up hdir _ ih => exact .up (hoff.at?_directory hdir) ih
  | fresh hdir hstep _ => exact .last (hoff.at?_directory hdir) hstep
  | atLink hdir hstep _ _ => exact .last (hoff.at?_directory hdir) hstep
  | through hdir hstep hgoes hlink hlast hwalks ih =>
    have hgone := not_deadEnd_of_through hstep hlink (fun hrest => hlast ⟨hrest, rfl⟩) hwalks
    exact .through (hoff.at?_directory hdir) hstep hgoes ((hoff _ hgone).trans hlink) hlast ih
  | @enter _ _ _ _ rest _ hdir hstep hgoes hentry hkind hwalks ih =>
    have hdir' := hoff.at?_directory hdir
    by_cases hrest : rest = []
    · subst hrest
      cases hwalks
      exact .last hdir' hstep
    · have hgone := not_deadEnd_of_directory (hwalks.directory hrest)
      exact .enter hdir' hstep hgoes ((hoff _ hgone).trans hentry) hkind ih

end Walks

/-! ## What paths name -/

namespace View

variable {v v' : View} {p q : Path} {a : Address} {e : Entry} {spot : Place} {content : Bytes}

/-- The entry that a path names, if it names one. -/
def held? (v : View) (p : Path) : Option Entry := (v.stat .findLink p).toOption

theorem held?_eq_some_iff :
    v.held? p = some e ↔ ∃ spot, v.locate .findLink p = .ok spot ∧ v.tree.at? spot = some e := by
  rw [← stat_eq_ok_iff, held?]
  cases v.stat .findLink p with
  | error cause => simp [Except.toOption]
  | ok e' => simp [Except.toOption]

theorem held?_of_locate (h : v.locate .findLink p = .ok ⟨a, 0⟩) : v.held? p = v.tree.get? a := by
  refine Option.ext fun e => held?_eq_some_iff.trans ?_
  rw [h]
  constructor
  · rintro ⟨spot, heq, hthere⟩
    cases heq
    exact hthere
  · intro hthere
    exact ⟨_, rfl, hthere⟩

/-- The path names no link. -/
def NoLink (v : View) (p : Path) : Prop := ∀ target, v.held? p ≠ some (.link target)

theorem NoLink.at? (h : v.NoLink p) (hspot : v.locate .findLink p = .ok spot) (target : String) :
    v.tree.at? spot ≠ some (.link target) := by
  intro hlink
  exact h target (held?_eq_some_iff.mpr ⟨spot, hspot, hlink⟩)

theorem noLink_of_file {executable : Bool} (h : v.held? p = some (.file content executable)) :
    v.NoLink p := by
  intro target
  rw [h]
  exact nofun

/-- A path that names no link leads to what it names. -/
theorem NoLink.locate (h : v.NoLink p) (hspot : v.locate .findLink p = .ok spot) :
    v.locate .find p = .ok spot := by
  obtain ⟨hshort, hwalks⟩ := locate_eq_ok_iff.mp hspot
  exact locate_eq_ok_iff.mpr ⟨hshort, hwalks.find_of_findLink (h.at? hspot)⟩

/-- Where a path leads that names no link, is what it names. -/
theorem NoLink.locate_findLink (h : v.NoLink p) {purpose : Purpose}
    (hspot : v.locate purpose p = .ok spot) : v.locate .findLink p = .ok spot := by
  obtain ⟨hshort, hwalks⟩ := locate_eq_ok_iff.mp hspot
  obtain ⟨mid, hmid, hend⟩ := hwalks.exists_findLink
  have hlocate : v.locate .findLink p = .ok mid := locate_eq_ok_iff.mpr ⟨hshort, hmid⟩
  rcases hend with rfl | ⟨target, -, hlink, -⟩
  · exact hlocate
  · exact absurd hlink (h.at? hlocate target)

/-- What is read where a file is named. -/
theorem read?_of_held? (hp : hasNul p = false) {executable : Bool}
    (h : v.held? p = some (.file content executable)) : v.read? p = .ok (some content) := by
  obtain ⟨spot, hspot, hthere⟩ := held?_eq_some_iff.mp h
  have hstat := stat_eq_ok_iff.mpr ⟨spot, (noLink_of_file h).locate hspot, hthere⟩
  rw [read?, find_eq_some_iff.mpr ⟨hp, hstat⟩]
  rfl

/-- What a path leads to stands behind an entry that the path names. -/
theorem exists_held?_of_stat {purpose : Purpose} (h : v.stat purpose p = .ok e) :
    ∃ e', v.held? p = some e' := by
  obtain ⟨spot, hspot, hthere⟩ := stat_eq_ok_iff.mp h
  obtain ⟨hshort, hwalks⟩ := locate_eq_ok_iff.mp hspot
  obtain ⟨mid, hmid, hend⟩ := hwalks.exists_findLink
  have hlocate : v.locate .findLink p = .ok mid := locate_eq_ok_iff.mpr ⟨hshort, hmid⟩
  rcases hend with rfl | ⟨target, -, hlink, -⟩
  · exact ⟨e, held?_eq_some_iff.mpr ⟨mid, hlocate, hthere⟩⟩
  · exact ⟨.link target, held?_eq_some_iff.mpr ⟨mid, hlocate, hlink⟩⟩

/-- The entry by which a path leads to a file is a dead end. -/
theorem deadEnd_of_isFile (hfile : v.isFile p = .ok true)
    (ha : v.locate .findLink p = .ok ⟨a, 0⟩) : DeadEnd v.tree a := by
  obtain ⟨content, executable, hfind⟩ := isFile_iff.mp hfile
  obtain ⟨spot, hspot, hthere⟩ := stat_eq_ok_iff.mp (find_eq_some_iff.mp hfind).2
  obtain ⟨hshort, hwalks⟩ := locate_eq_ok_iff.mp hspot
  obtain ⟨mid, hmid, hend⟩ := hwalks.exists_findLink
  obtain rfl : mid = ⟨a, 0⟩ := hmid.unique (locate_eq_ok_iff.mp ha).2
  rcases hend with rfl | ⟨target, links, hlink, hwalks'⟩
  · exact deadEnd_of_file hthere
  · change v.tree.get? a = _ at hlink
    constructor
    · rw [Replaceable, hlink]
      exact nofun
    · intro target' links' mid hlink' hmid hdirectory
      rw [hlink] at hlink'
      cases hlink'
      obtain rfl := hmid.unique hwalks'
      rw [hthere] at hdirectory
      cases hdirectory

/-! ## Changing a dead end -/

/-- The views are the same but for what stands at `a`. -/
structure SameOff (a : Address) (v v' : View) : Prop where
  cwd : v'.cwd = v.cwd
  tree : Tree.SameOff a v.tree v'.tree

theorem SameOff.symm (h : v.SameOff a v') : v'.SameOff a v := ⟨h.cwd.symm, h.tree.symm⟩

theorem sameOff_insert (v : View) {a : Address} (e : Entry) (h : Free v.tree a) :
    v.SameOff a (v.insert a e h) :=
  ⟨rfl, v.tree.sameOff_insert a e⟩

theorem sameOff_erase (v : View) {a : Address} (h : Replaceable v.tree a) :
    v.SameOff a (v.erase a h) :=
  ⟨rfl, v.tree.sameOff_erase a⟩

section Off

variable (hoff : v.SameOff a v') (hdead : DeadEnd v.tree a)

include hoff hdead

theorem locate_of_off (h : v.locate .findLink p = .ok spot) : v'.locate .findLink p = .ok spot := by
  obtain ⟨hshort, hwalks⟩ := locate_eq_ok_iff.mp h
  have hstart : v'.start p = v.start p := by rw [start, start, hoff.cwd]
  rw [← hstart] at hwalks
  exact locate_eq_ok_iff.mpr ⟨hshort, hwalks.of_offEnds (hoff.tree.sameOffEnds hdead)⟩

/-- A path names the same entry unless it names what has been changed. -/
theorem held?_of_off (hdead' : DeadEnd v'.tree a) (hne : v.locate .findLink p ≠ .ok ⟨a, 0⟩) :
    v'.held? p = v.held? p := by
  apply Option.ext
  intro e
  rw [held?_eq_some_iff, held?_eq_some_iff]
  constructor
  · rintro ⟨spot, hspot, hthere⟩
    have hspot' := locate_of_off hoff.symm hdead' hspot
    have hother : spot ≠ ⟨a, 0⟩ := by
      rintro rfl
      exact hne hspot'
    exact ⟨spot, hspot', (hoff.tree.at? hother).symm.trans hthere⟩
  · rintro ⟨spot, hspot, hthere⟩
    have hother : spot ≠ ⟨a, 0⟩ := by
      rintro rfl
      exact hne hspot
    exact ⟨spot, locate_of_off hoff hdead hspot, (hoff.tree.at? hother).trans hthere⟩

end Off

/-! ## Writing -/

/-- A file is written where its path names it. -/
theorem exists_of_write_noLink (hlink : v.NoLink p) (h : v.write p content = .ok v') :
    ∃ a executable, ∃ hfree : Free v.tree a, v.locate .findLink p = .ok ⟨a, 0⟩ ∧
      DeadEnd v.tree a ∧ v' = v.insert a (.file content executable) hfree ∧ DeadEnd v'.tree a := by
  obtain ⟨a, executable, hfree, hlocate, rfl⟩ := exists_of_write h
  have hspot := hlink.locate_findLink hlocate
  have hentry := v.tree.get?_insert_self (.file content executable) hfree.replaceable.ne_nil
  exact ⟨a, executable, hfree, hspot, deadEnd_of_not_link hfree.replaceable (hlink.at? hspot), rfl,
    deadEnd_of_file hentry⟩

/-- What was written at a path is held there. -/
theorem held?_write (hlink : v.NoLink p) (h : v.write p content = .ok v') :
    ∃ executable, v'.held? p = some (.file content executable) := by
  obtain ⟨a, executable, hfree, hlocate, hdead, rfl, -⟩ := exists_of_write_noLink hlink h
  refine ⟨executable, held?_eq_some_iff.mpr ⟨⟨a, 0⟩, ?_, ?_⟩⟩
  · exact locate_of_off (v.sameOff_insert _ hfree) hdead hlocate
  · exact v.tree.get?_insert_self _ hdead.replaceable.ne_nil

/-- The paths name the same place, be something there or not. -/
def SamePlace (v : View) (p q : Path) : Prop :=
  ∃ spot, v.locate .findLink p = .ok spot ∧ v.locate .findLink q = .ok spot

/-- Writing a file changes nothing that is held elsewhere, and leaves every path at its place. -/
theorem held?_write_of_ne (hlink : v.NoLink q) (h : v.write q content = .ok v')
    (hne : ¬ v.SamePlace p q) : v'.held? p = v.held? p ∧ ¬ v'.SamePlace p q := by
  obtain ⟨a, executable, hfree, hlocate, hdead, rfl, hdead'⟩ := exists_of_write_noLink hlink h
  have hoff := v.sameOff_insert (.file content executable) hfree
  constructor
  · apply held?_of_off hoff hdead hdead'
    intro hp
    exact hne ⟨_, hp, hlocate⟩
  · rintro ⟨spot, hp, hq⟩
    have hp' := locate_of_off hoff.symm hdead' hp
    have hq' := locate_of_off hoff.symm hdead' hq
    exact hne ⟨spot, hp', hq'⟩

/-! ## Deleting -/

theorem removeAt_of_replaceable {a : Address} (h : Replaceable v.tree a) :
    v.removeAt a = .ok (v.erase a h) := dif_pos h

theorem unlink_of_none (hlocate : v.locate .findLink p = .ok ⟨a, 0⟩)
    (ha : v.tree.get? a = none) : v.unlink p = .error .notFound := by
  have hthere : v.tree.at? ⟨a, 0⟩ = none := ha
  rw [unlink, hlocate]
  dsimp only [bind, Except.bind]
  rw [hthere]

theorem unlink_of_some {e : Entry} (hlocate : v.locate .findLink p = .ok ⟨a, 0⟩)
    (ha : v.tree.get? a = some e) (hreplaceable : Replaceable v.tree a) :
    v.unlink p = .ok (v.erase a hreplaceable) := by
  have hthere : v.tree.at? ⟨a, 0⟩ = some e := ha
  rw [unlink, hlocate]
  dsimp only [bind, Except.bind]
  rw [hthere]
  cases e with
  | directory => exact absurd ha hreplaceable
  | file | link => exact removeAt_of_replaceable hreplaceable

/-- Deleting takes the entry away that the path names. -/
theorem exists_of_unlink (h : v.unlink p = .ok v') :
    ∃ a e, ∃ hreplaceable : Replaceable v.tree a, v.locate .findLink p = .ok ⟨a, 0⟩ ∧
      v.tree.get? a = some e ∧ v' = v.erase a hreplaceable := by
  obtain ⟨⟨a, lost⟩, hspot, h⟩ := bind_eq_ok_iff.mp h
  have hthere : v.tree.at? ⟨a, lost⟩ ≠ some .directory := by
    intro hdir
    rw [hdir] at h
    cases h
  have hlost : lost = 0 := by
    by_contra hlost
    exact hthere (if_neg hlost)
  subst hlost
  have hreplaceable : Replaceable v.tree a := hthere
  rw [removeAt_of_replaceable hreplaceable] at h
  cases hentry : v.tree.at? ⟨a, 0⟩ with
  | none =>
    rw [hentry] at h
    cases h
  | some e =>
    rw [hentry] at h
    refine ⟨a, e, hreplaceable, hspot, hentry, ?_⟩
    cases e with
    | directory => cases h
    | file | link =>
      cases h
      rfl

theorem unlink_within (h : v.unlink p = .ok v') : v'.Within v := by
  obtain ⟨a, -, -, -, -, rfl⟩ := exists_of_unlink h
  exact ⟨rfl, v.tree.within_erase a⟩

/-- A path that has been deleted names nothing any more. -/
theorem held?_unlink (h : v.unlink p = .ok v') : v'.held? p = none := by
  rw [Option.eq_none_iff_forall_ne_some]
  intro e hheld
  obtain ⟨spot, hspot, hthere⟩ := held?_eq_some_iff.mp hheld
  have hbefore := (unlink_within h).locate hspot hthere
  obtain ⟨a, -, hreplaceable, hlocate, -, rfl⟩ := exists_of_unlink h
  obtain rfl : spot = ⟨a, 0⟩ := Except.ok.inj (hbefore.symm.trans hlocate)
  have hgone : (v.erase a hreplaceable).tree.at? ⟨a, 0⟩ = none :=
    v.tree.get?_erase_self hreplaceable.ne_nil
  rw [hgone] at hthere
  cases hthere

theorem removeAt_ne_notFound {a : Address} : v.removeAt a ≠ .error .notFound := by
  unfold removeAt
  split <;> exact nofun

theorem held?_of_unlink_notFound (h : v.unlink p = .error .notFound) : v.held? p = none := by
  rw [Option.eq_none_iff_forall_ne_some]
  intro e hheld
  obtain ⟨spot, hspot, hthere⟩ := held?_eq_some_iff.mp hheld
  rw [unlink, hspot] at h
  dsimp only [bind, Except.bind] at h
  rw [hthere] at h
  cases e with
  | directory => cases h
  | file | link => exact removeAt_ne_notFound h

/-- Deleting a dead end changes nothing that is held elsewhere. -/
theorem held?_unlink_of_ne (h : v.unlink q = .ok v')
    (hdead : ∀ a, v.locate .findLink q = .ok ⟨a, 0⟩ → DeadEnd v.tree a) (hne : ¬ v.SamePlace p q) :
    v'.held? p = v.held? p := by
  obtain ⟨a, -, hreplaceable, hlocate, -, rfl⟩ := exists_of_unlink h
  have hgone := v.tree.get?_erase_self hreplaceable.ne_nil
  apply held?_of_off (v.sameOff_erase hreplaceable) (hdead a hlocate) (deadEnd_of_none hgone)
  intro hp
  exact hne ⟨_, hp, hlocate⟩

end View

end HotPath.FileSystem
