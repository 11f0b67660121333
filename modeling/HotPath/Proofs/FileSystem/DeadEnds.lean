import HotPath.Proofs.FileSystem.Naming
import HotPath.Glob.Search

/-!
# Trees that lose dead ends

A tree can lose a file, or a link that leads to no directory, without any walk coming to another
directory than before. Whatever could be asked of the files before can be asked of them afterwards:
a path that is too long for the smaller tree is too long for the larger one
(`walk_nameTooLong_of_within`), and a walk either arrives where it did or stops at what has been
lost (`Walks.exists_of_losesEnds`). There is nothing below what has been lost if every entry of the
tree stands in a directory (`Tree.Rooted`).

* `View.LosesEnds`: what is found, and what is listed, after dead ends have been lost.
-/

namespace HotPath.FileSystem

/-! ## Trees -/

namespace Tree

/-- `t'` is `t` without some of its dead ends. -/
def LosesEnds (t t' : Tree) : Prop :=
  ∀ a, t'.get? a = t.get? a ∨ t'.get? a = none ∧ DeadEnd t a

variable {t t' : Tree}

theorem LosesEnds.get? (h : t.LosesEnds t') {a : Address} {e : Entry} (ha : t'.get? a = some e) :
    t.get? a = some e := by
  rcases h a with hsame | ⟨hnone, -⟩
  · rwa [← hsame]
  · rw [hnone] at ha
    cases ha

theorem LosesEnds.within (h : t.LosesEnds t') : t'.Within t := fun _ e ha => ⟨e, h.get? ha, rfl⟩

theorem LosesEnds.sameOffEnds (h : t.LosesEnds t') : t.SameOffEnds t' := by
  intro a ha
  exact (h a).resolve_right fun hgone => ha hgone.2

end Tree

/-! ## Walks -/

section Walks

variable {t t' : Tree} {purpose : Purpose} {links : Nat} {here spot : Place} {steps : List String}

/-- A name that is too long for a walk is too long for it in a larger tree. -/
theorem walk_nameTooLong_of_within (hwithin : t'.Within t)
    (h : walk t' purpose links here steps = .error .nameTooLong) :
    walk t purpose links here steps = .error .nameTooLong := by
  fun_induction walk t' purpose links here steps
  case case5 hdir hstep ih =>
    rw [walk, hwithin.at?_directory hdir]
    dsimp only
    rw [if_pos hstep, ih h]
  case case6 hdir _ ih =>
    rw [walk, hwithin.at?_directory hdir]
    dsimp only
    rw [if_neg (by decide), if_pos rfl, ih h]
  case case9 hdir hname hup hmake hlost hlong =>
    rw [walk, hwithin.at?_directory hdir]
    dsimp only
    rw [if_neg hname, if_neg hup, if_neg hmake, if_neg hlost, if_pos hlong]
  case case14 hdir hname hup hmake hlost hshort _ _ hlink hlast _ ih =>
    rw [walk_cons (hwithin.at?_directory hdir) (namesEntry_of hname hup hlost hshort)
      (goesOn_of hmake), hwithin.link hlink]
    dsimp only
    rw [if_neg hlast]
    exact ih h
  case case15 hdir hname hup hmake hlost hshort _ _ _ hfile ih =>
    obtain ⟨e, hentry, hshape⟩ := hwithin _ _ hfile
    obtain ⟨_, _, rfl⟩ := Entry.exists_file_of_shape hshape
    rw [walk_cons (hwithin.at?_directory hdir) (namesEntry_of hname hup hlost hshort)
      (goesOn_of hmake), hentry]
    exact ih h
  case case16 hdir hname hup hmake hlost hshort _ hdirectory ih =>
    rw [walk_cons (hwithin.at?_directory hdir) (namesEntry_of hname hup hlost hshort)
      (goesOn_of hmake), hwithin.directory hdirectory]
    exact ih h
  all_goals cases h

/-- Without some dead ends, a walk arrives where it did or stops at one that has been lost. -/
theorem Walks.exists_of_losesEnds (hloses : t.LosesEnds t')
    (h : Walks t .find links here steps spot) :
    ∃ spot', Walks t' .find links here steps spot' ∧
      (spot' = spot ∨ ∃ a, spot' = ⟨a, 0⟩ ∧ DeadEnd t a ∧ t'.get? a = none) := by
  have hdirectory {p : Place} := hloses.sameOffEnds.at?_directory (p := p)
  induction h with
  | done => exact ⟨_, .done, .inl rfl⟩
  | stay hdir hstep _ ih =>
    obtain ⟨spot', hwalks, hspot⟩ := ih
    exact ⟨spot', .stay (hdirectory hdir) hstep hwalks, hspot⟩
  | up hdir _ ih =>
    obtain ⟨spot', hwalks, hspot⟩ := ih
    exact ⟨spot', .up (hdirectory hdir) hwalks, hspot⟩
  | @fresh _ here step hdir hstep hnone =>
    have hnone' : t'.get? (here.address ++ [step]) = none := by
      rcases hloses (here.address ++ [step]) with hsame | ⟨hgone, -⟩
      · rw [hsame, hnone]
      · exact hgone
    exact ⟨_, .fresh (hdirectory hdir) hstep hnone', .inl rfl⟩
  | atLink _ _ _ hpurpose => cases hpurpose
  | @through _ here _ step _ rest hdir hstep hgoes hlink hlast hwalks ih =>
    rcases hloses (here.address ++ [step]) with hsame | ⟨hgone, hdead⟩
    · obtain ⟨spot', hwalks', hspot⟩ := ih
      exact ⟨spot', .through (hdirectory hdir) hstep hgoes (hsame.trans hlink) hlast hwalks', hspot⟩
    · -- the walk cannot go on behind a dead end, so it has come to its end
      obtain rfl : rest = [] := by
        by_contra hrest
        exact not_deadEnd_of_through hstep hlink hrest hwalks hdead
      exact ⟨_, .fresh (hdirectory hdir) hstep hgone, .inr ⟨_, rfl, hdead, hgone⟩⟩
  | @enter _ here _ step rest _ hdir hstep hgoes hentry hkind hwalks ih =>
    rcases hloses (here.address ++ [step]) with hsame | ⟨hgone, hdead⟩
    · obtain ⟨spot', hwalks', hspot⟩ := ih
      exact ⟨spot', .enter (hdirectory hdir) hstep hgoes (hsame.trans hentry) hkind hwalks', hspot⟩
    · obtain rfl : rest = [] := by
        by_contra hrest
        exact hdead.replaceable (hwalks.directory hrest)
      exact ⟨_, .fresh (hdirectory hdir) hstep hgone, .inr ⟨_, rfl, hdead, hgone⟩⟩

end Walks

/-! ## Views -/

namespace View

variable {v v' : View} {p : Path}

theorem Within.locate_nameTooLong (h : v.Within v') {purpose : Purpose}
    (hp : v.locate purpose p = .error .nameTooLong) :
    v'.locate purpose p = .error .nameTooLong := by
  unfold View.locate at hp ⊢
  rw [h.start p] at hp
  split at hp
  · rw [if_pos ‹_›]
  · rw [if_neg ‹_›, walk_nameTooLong_of_within h.tree hp]

/-- What can be looked up can be looked up in a smaller tree. -/
theorem Within.exists_find (h : v.Within v') (hp : ∃ found, v'.find p = .ok found) :
    ∃ found, v.find p = .ok found := by
  obtain ⟨found', hfind⟩ := hp
  cases hfound : v.find p with
  | ok found => exact ⟨found, rfl⟩
  | error fault =>
    obtain ⟨hnul, hstat, -⟩ := find_eq_error_iff.mp hfound
    have hlong := stat_nameTooLong_iff.mpr (h.locate_nameTooLong (stat_nameTooLong_iff.mp hstat))
    rw [find_eq_error_iff.mpr ⟨hnul, hlong, rfl⟩] at hfind
    cases hfind

theorem Within.exists_isFile (h : v.Within v') {b' : Bool} (hp : v'.isFile p = .ok b') :
    ∃ b, v.isFile p = .ok b ∧ (b = true → b' = true) := by
  have hfind := exists_map_eq_ok_iff.mp (exists_map_eq_ok_iff.mp ⟨b', hp⟩)
  obtain ⟨b, hb⟩ := exists_map_eq_ok_iff.mpr (exists_map_eq_ok_iff.mpr (h.exists_find hfind))
  refine ⟨b, hb, ?_⟩
  rintro rfl
  exact Except.ok.inj (hp.symm.trans (h.isFile hb))

theorem Within.exists_isDirectory (h : v.Within v') {b' : Bool} (hp : v'.isDirectory p = .ok b') :
    ∃ b, v.isDirectory p = .ok b ∧ (b = true → b' = true) := by
  obtain ⟨b, hb⟩ := exists_map_eq_ok_iff.mpr (h.exists_find (exists_map_eq_ok_iff.mp ⟨b', hp⟩))
  refine ⟨b, hb, ?_⟩
  rintro rfl
  exact Except.ok.inj (hp.symm.trans (h.isDirectory hb))

theorem Within.exists_isPresent (h : v.Within v') {b' : Bool} (hp : v'.isPresent p = .ok b') :
    ∃ b, v.isPresent p = .ok b ∧ (b = true → b' = true) := by
  obtain ⟨b, hb⟩ := exists_map_eq_ok_iff.mpr (h.exists_find (exists_map_eq_ok_iff.mp ⟨b', hp⟩))
  refine ⟨b, hb, ?_⟩
  rintro rfl
  exact Except.ok.inj (hp.symm.trans (h.isPresent hb))

/-- `v'` is `v` without some dead ends of its tree. -/
structure LosesEnds (v v' : View) : Prop where
  cwd : v'.cwd = v.cwd
  tree : v.tree.LosesEnds v'.tree

namespace LosesEnds

theorem within (h : v.LosesEnds v') : v'.Within v := ⟨h.cwd, h.tree.within⟩

/-- Paths name the places that they named. -/
theorem locate_findLink (h : v.LosesEnds v') {spot : Place}
    (hspot : v.locate .findLink p = .ok spot) : v'.locate .findLink p = .ok spot := by
  obtain ⟨hshort, hwalks⟩ := locate_eq_ok_iff.mp hspot
  rw [← h.within.start p] at hwalks
  exact locate_eq_ok_iff.mpr ⟨hshort, hwalks.of_offEnds h.tree.sameOffEnds⟩

/-- Paths lead where they led, or to what has been lost. -/
theorem exists_locate (h : v.LosesEnds v') {spot : Place} (hspot : v.locate .find p = .ok spot) :
    ∃ spot', v'.locate .find p = .ok spot' ∧
      (spot' = spot ∨ ∃ a, spot' = ⟨a, 0⟩ ∧ DeadEnd v.tree a ∧ v'.tree.get? a = none) := by
  obtain ⟨hshort, hwalks⟩ := locate_eq_ok_iff.mp hspot
  rw [← h.within.start p] at hwalks
  obtain ⟨spot', hwalks', hend⟩ := hwalks.exists_of_losesEnds h.tree
  exact ⟨spot', locate_eq_ok_iff.mpr ⟨hshort, hwalks'⟩, hend⟩

/-- What is below a place that a path leads to was there before. -/
theorem locate_of_below (h : v.LosesEnds v') {spot : Place}
    (hspot : v.locate .find p = .ok spot) {a : Address} (ha : v'.locate .find p = .ok ⟨a, 0⟩)
    {names : List String} {e : Entry} (hnames : names ≠ [])
    (hentry : v'.tree.get? (a ++ names) = some e) :
    v.locate .find p = .ok ⟨a, 0⟩ ∧ v.tree.get? (a ++ names) = some e := by
  have hentry' := h.tree.get? hentry
  refine ⟨?_, hentry'⟩
  obtain ⟨spot', hspot', hend⟩ := h.exists_locate hspot
  obtain rfl : spot' = ⟨a, 0⟩ := Except.ok.inj (hspot'.symm.trans ha)
  rcases hend with rfl | ⟨b, hb, hdead, -⟩
  · exact hspot
  · obtain rfl : a = b := congrArg Place.address hb
    exact absurd (v.rooted.directory hnames hentry') hdead.replaceable

theorem exists_list (h : v.LosesEnds v') {members : List (String × Entry)}
    (hlist : v.list p = .ok members) :
    ∃ members', v'.list p = .ok members' ∧ members' ⊆ members := by
  obtain ⟨spot, hspot⟩ := exists_list_iff.mp ⟨members, hlist⟩
  obtain ⟨spot', hspot', -⟩ := h.exists_locate hspot
  obtain ⟨members', hlist'⟩ := exists_list_iff.mpr ⟨spot', hspot'⟩
  refine ⟨members', hlist', fun member hmember => ?_⟩
  obtain ⟨a, ha, hentry⟩ := exists_of_mem_list hlist' hmember
  obtain ⟨ha', hentry'⟩ := h.locate_of_below hspot ha (List.cons_ne_nil _ _) hentry
  rw [list_of_locate ha'] at hlist
  cases hlist
  exact v.tree.mem_members_iff.mpr hentry'

theorem directoriesBelow_subset (h : v.LosesEnds v') {spot : Place}
    (hspot : v.locate .find p = .ok spot) : v'.directoriesBelow p ⊆ v.directoriesBelow p := by
  intro names hnames
  obtain ⟨a, ha, hne, hentry⟩ := mem_directoriesBelow_iff.mp hnames
  obtain ⟨ha', hentry'⟩ := h.locate_of_below hspot ha hne hentry
  exact mem_directoriesBelow_iff.mpr ⟨a, ha', hne, hentry'⟩

end LosesEnds

end View

end HotPath.FileSystem
