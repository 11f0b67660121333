import HotPath.Proofs.FileSystem.DeadEnds

/-!
# Where walks arrive

Since every entry stands in a directory, a walk arrives at a directory or at a name in one
(`Walks.named`). So what a path leads to behind one more name is an entry of the directory that the
path leads to, unless it is a directory (`View.contains_of_find`).

* `View.Contains`: a path leads to a directory with an entry of a name.
-/

namespace HotPath.FileSystem

section Walks

variable {t : Tree} {purpose : Purpose} {links : Nat} {here spot : Place} {steps : List String}

theorem Tree.Rooted.up (h : t.Rooted) {p : Place} (hp : t.get? p.address = some .directory) :
    t.get? p.up.address = some .directory := by
  unfold Place.up
  split
  · exact h.dropLast hp
  · exact hp

theorem NamesEntry.at_address {step : String} (h : NamesEntry here step) :
    NamesEntry ⟨here.address, 0⟩ step :=
  ⟨h.ne_dot, h.ne_empty, h.ne_up, rfl, h.short⟩

/-- A walk that starts in a directory arrives at a directory or at a name in one. -/
theorem Walks.named (hrooted : t.Rooted) (h : Walks t purpose links here steps spot)
    (hhere : t.get? here.address = some .directory) :
    t.get? spot.address = some .directory ∨
      ∃ a name, spot = ⟨a ++ [name], 0⟩ ∧ NamesEntry ⟨a, 0⟩ name := by
  induction h with
  | done => exact .inl hhere
  | stay _ _ _ ih => exact ih hhere
  | up _ _ ih => exact ih (hrooted.up hhere)
  | fresh _ hstep => exact .inr ⟨_, _, rfl, hstep.at_address⟩
  | atLink _ hstep => exact .inr ⟨_, _, rfl, hstep.at_address⟩
  | through _ _ _ _ _ _ ih =>
    apply ih
    split
    · rfl
    · exact hhere
  | @enter _ here _ step rest e _ hstep _ hentry _ hwalks ih =>
    by_cases hdirectory : t.get? (here.address ++ [step]) = some .directory
    · exact ih hdirectory
    · have hrest : rest = [] := by
        by_contra hrest
        exact hdirectory (hwalks.directory hrest)
      subst hrest
      cases hwalks
      exact .inr ⟨_, _, rfl, hstep.at_address⟩

/-- Where a walk is in a directory, the tree has that directory or the one that it was in. -/
theorem Walks.get?_address (hrooted : t.Rooted) (h : Walks t purpose links here steps spot)
    (hhere : t.get? here.address = some .directory) (hspot : t.at? spot = some .directory) :
    t.get? spot.address = some .directory := by
  rcases h.named hrooted hhere with hthere | ⟨a, name, rfl, -⟩
  · exact hthere
  · exact hspot

/-- A walk that arrives at something goes by entries that are there. -/
theorem Walks.exists_entry {name : String} {back : List String} {e : Entry}
    (h : Walks t purpose links here (name :: back) spot) (hname : NamesEntry here name)
    (hspot : t.at? spot = some e) : ∃ entry, t.get? (here.address ++ [name]) = some entry := by
  cases h with
  | stay _ hstep => exact absurd hstep (by simp [hname.ne_dot, hname.ne_empty])
  | up => exact absurd rfl hname.ne_up
  | fresh => exact ⟨e, hspot⟩
  | atLink _ _ hlink => exact ⟨_, hlink⟩
  | through _ _ _ hlink => exact ⟨_, hlink⟩
  | enter _ _ _ hentry => exact ⟨_, hentry⟩

/-- One more name leads to an entry of the directory, or to a directory. -/
theorem Walks.contains (hrooted : t.Rooted) {name : String} (hdot : name ≠ ".") (hempty : name ≠ "")
    (h : Walks t purpose links here [name] spot)
    (hhere : t.get? here.address = some .directory) {e : Entry} (hspot : t.at? spot = some e) :
    (here.lost = 0 ∧ ∃ e', t.get? (here.address ++ [name]) = some e') ∨ e = .directory := by
  cases h with
  | stay _ hstep => exact absurd hstep (by simp [hdot, hempty])
  | up _ hwalks =>
    cases hwalks
    right
    have hup := hrooted.up hhere
    unfold Tree.at? at hspot
    split at hspot
    · exact Option.some.inj (hspot.symm.trans hup)
    · exact (Option.some.inj hspot).symm
  | fresh _ hstep hnone =>
    have hgone : t.at? ⟨here.address ++ [name], 0⟩ = none := hnone
    rw [hgone] at hspot
    cases hspot
  | atLink _ hstep hlink => exact .inl ⟨hstep.present, _, hlink⟩
  | through _ hstep _ hlink => exact .inl ⟨hstep.present, _, hlink⟩
  | enter _ hstep _ hentry => exact .inl ⟨hstep.present, _, hentry⟩

end Walks

/-! ## Views -/

namespace View

variable {v : View} {p : Path} {name : String} {e : Entry}

theorem start_inDirectory (v : View) (p : Path) :
    v.tree.get? (v.start p).address = some .directory := by
  unfold start
  split
  · rfl
  · exact v.inDirectory

/-- The path leads to a directory with an entry of this name. -/
def Contains (v : View) (p : Path) (name : String) : Prop :=
  ∃ a e, v.locate .find p = .ok ⟨a, 0⟩ ∧ v.tree.get? (a ++ [name]) = some e

theorem contains_iff_mem_list {members : List (String × Entry)} (h : v.list p = .ok members) :
    v.Contains p name ↔ ∃ e, (name, e) ∈ members := by
  constructor
  · rintro ⟨a, e, hlocate, hentry⟩
    rw [list_of_locate hlocate] at h
    cases h
    exact ⟨e, v.tree.mem_members_iff.mpr hentry⟩
  · rintro ⟨e, hmember⟩
    obtain ⟨a, hlocate, hentry⟩ := exists_of_mem_list h hmember
    exact ⟨a, e, hlocate, hentry⟩

/-- A path with one more name leads to a directory, or by an entry of the directory before. -/
theorem contains_of_find (hdot : name ≠ ".") (hempty : name ≠ "")
    (h : v.find (p.child name) = .ok (some e)) (he : e ≠ .directory) : v.Contains p name := by
  obtain ⟨-, hstat⟩ := find_eq_some_iff.mp h
  obtain ⟨spot, hspot, hthere⟩ := stat_eq_ok_iff.mp hstat
  obtain ⟨hshort, hwalks⟩ := locate_eq_ok_iff.mp hspot
  obtain ⟨⟨a, lost⟩, links, hmid, hend⟩ := hwalks.cut (List.cons_ne_nil name [])
  have hdirectory := hend.directory (List.cons_ne_nil name [])
  have hget := hmid.get?_address v.rooted (v.start_inDirectory p) hdirectory
  rcases hend.contains v.rooted hdot hempty hget hthere with ⟨rfl, e', hentry⟩ | rfl
  · exact ⟨a, e', locate_eq_ok_iff.mpr ⟨text_short_of_append hshort, hmid⟩, hentry⟩
  · exact absurd rfl he

end View

end HotPath.FileSystem
