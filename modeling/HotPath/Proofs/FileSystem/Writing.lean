import HotPath.FileSystem.Edit
import HotPath.Proofs.FileSystem.Walking
import HotPath.Proofs.Results

/-!
# Reading what was written

A file that has been written reads back as what was written to it (`View.read?_write`), and nothing
else in the tree changes (`View.exists_of_write`). The walk that reads the file passes the places of
the walk that made it. It could only miss the file if it came by the place of the file before its
end. As a directory it cannot be there, since nothing is written over a directory; and a walk never
ends at a link that it has followed (`Walks.prefix_of_link`).
-/

namespace HotPath.FileSystem

variable {t : Tree} {links : Nat} {here spot : Place} {steps : List String}

theorem Place.prefix_of_up (p : Place) : p.up.address <+: p.address := by
  unfold Place.up
  split
  · exact List.dropLast_prefix p.address
  · exact List.prefix_rfl

/-- A walk that ends at a link has only gone up from where it started. -/
theorem Walks.prefix_of_link (h : Walks t .make links here steps spot) {target : String}
    (hspot : t.get? spot.address = some (.link target)) : spot.address <+: here.address := by
  induction h with
  | done => exact List.prefix_rfl
  | stay _ _ _ ih => exact ih hspot
  | up _ _ ih => exact (ih hspot).trans (Place.prefix_of_up _)
  | fresh _ _ hnone =>
    rw [hnone] at hspot
    cases hspot
  | atLink _ _ _ hpurpose => cases hpurpose
  | @through _ here spot _ _ _ _ _ _ _ _ _ ih =>
    have hup := ih hspot
    split at hup
    · have hnil : spot.address = [] := List.prefix_nil.mp hup
      rw [hnil]
      exact List.nil_prefix
    · exact hup
  | enter _ _ _ hentry hkind _ ih =>
    rcases List.prefix_concat_iff.mp (ih hspot) with heq | hup
    · rw [heq, hentry] at hspot
      cases hspot
      cases hkind
    · exact hup

theorem at?_insert_of_directory {a : Address} (ha : Replaceable t a) (e : Entry)
    (h : t.at? here = some .directory) : (t.insert a e).at? here = some .directory := by
  unfold Tree.at? at h ⊢
  split
  · rename_i hlost
    rw [if_pos hlost] at h
    have hne : here.address ≠ a := by
      rintro rfl
      exact ha h
    rw [Tree.get?_insert_of_ne t e hne, h]
  · rfl

/-- The walk that makes a file finds the file once it is there. -/
theorem Walks.find_insert (h : Walks t .make links here steps spot)
    (hspot : Replaceable t spot.address) {e : Entry} (he : e.isLink = false) :
    Walks (t.insert spot.address e) .find links here steps spot := by
  induction h with
  | done => exact .done
  | stay hdir hstep _ ih => exact .stay (at?_insert_of_directory hspot e hdir) hstep (ih hspot)
  | up hdir _ ih => exact .up (at?_insert_of_directory hspot e hdir) (ih hspot)
  | fresh hdir hstep _ =>
    exact .enter (at?_insert_of_directory hspot e hdir) hstep (by simp [GoesOn])
      (Tree.get?_insert_self t e hspot.ne_nil) he .done
  | atLink _ _ _ hpurpose => cases hpurpose
  | @through _ here spot step _ _ hdir hstep _ hlink _ hwalk ih =>
    have hne : here.address ++ [step] ≠ spot.address := by
      intro heq
      rw [heq] at hlink
      have hup := (hwalk.prefix_of_link hlink).length_le
      have hlen := congrArg List.length heq
      rw [List.length_append, List.length_singleton] at hlen
      split at hup
      · simp only [List.length_nil] at hup
        omega
      · omega
    refine .through (at?_insert_of_directory hspot e hdir) hstep (by simp [GoesOn]) ?_ (by simp)
      (ih hspot)
    rw [Tree.get?_insert_of_ne t e hne, hlink]
  | @enter _ here spot step _ old hdir hstep _ hentry hkind hwalk ih =>
    have hnew : ∃ new, (t.insert spot.address e).get? (here.address ++ [step]) = some new ∧
        new.isLink = false := by
      by_cases heq : here.address ++ [step] = spot.address
      · exact ⟨e, by rw [heq, Tree.get?_insert_self t e hspot.ne_nil], he⟩
      · exact ⟨old, by rw [Tree.get?_insert_of_ne t e heq, hentry], hkind⟩
    obtain ⟨new, hnew, hnewkind⟩ := hnew
    exact .enter (at?_insert_of_directory hspot e hdir) hstep (by simp [GoesOn]) hnew hnewkind
      (ih hspot)

namespace View

variable {v v' : View} {p : Path} {content : Bytes}

/-- Where a file is written: at the end of a walk, and not over a directory. -/
theorem exists_of_fileSpot {a : Address} {executable : Bool}
    (h : v.fileSpot p = .ok (a, executable)) :
    v.locate .make p = .ok ⟨a, 0⟩ ∧ Replaceable v.tree a := by
  obtain ⟨spot, hspot, h⟩ := bind_eq_ok_iff.mp h
  obtain ⟨address, lost⟩ := spot
  have hthere : v.tree.at? ⟨address, lost⟩ ≠ some .directory := by
    intro hdir
    rw [hdir] at h
    cases h
  have hlost : lost = 0 := by
    by_contra hlost
    exact hthere (if_neg hlost)
  subst hlost
  have haddress : address = a := by
    split at h
    · cases h
    · cases h
      rfl
    · cases h
      rfl
    · cases h
      rfl
  subst haddress
  exact ⟨hspot, hthere⟩

theorem putAt_eq_ok_iff {a : Address} {e : Entry} :
    v.putAt a e = .ok v' ↔ ∃ hfree : Free v.tree a, v' = v.insert a e hfree := by
  unfold putAt
  split
  · rename_i hfree
    rw [Except.ok.injEq]
    exact ⟨fun h => ⟨hfree, h.symm⟩, fun ⟨_, h⟩ => h.symm⟩
  · rename_i hfree
    exact ⟨nofun, fun ⟨h, _⟩ => absurd h hfree⟩

/-- Writing changes the tree at one address and nowhere else. -/
theorem exists_of_write (h : v.write p content = .ok v') :
    ∃ a executable, ∃ hfree : Free v.tree a, v.locate .make p = .ok ⟨a, 0⟩ ∧
      v' = v.insert a (.file content executable) hfree := by
  obtain ⟨⟨a, executable⟩, hspot, h⟩ := bind_eq_ok_iff.mp h
  obtain ⟨hfree, rfl⟩ := putAt_eq_ok_iff.mp h
  exact ⟨a, executable, hfree, (exists_of_fileSpot hspot).1, rfl⟩

/-- What was written at a path is read there. -/
theorem read?_write (hp : hasNul p = false) (h : v.write p content = .ok v') :
    v'.read? p = .ok (some content) := by
  obtain ⟨a, executable, hfree, hlocate, rfl⟩ := exists_of_write h
  unfold locate at hlocate
  split at hlocate
  · cases hlocate
  · rename_i hlength
    have hwalks := (walks_of_walk hlocate).find_insert hfree.replaceable
      (e := .file content executable) rfl
    have hfound : (v.insert a (.file content executable) hfree).locate .find p = .ok ⟨a, 0⟩ := by
      rw [locate, if_neg hlength]
      exact walk_of_walks hwalks
    have hentry : (v.tree.insert a (.file content executable)).at? ⟨a, 0⟩ =
        some (.file content executable) :=
      Tree.get?_insert_self v.tree _ hfree.replaceable.ne_nil
    have hstat : (v.insert a (.file content executable) hfree).stat .find p =
        .ok (.file content executable) := by
      rw [stat, hfound]
      dsimp only [bind, Except.bind, insert]
      rw [hentry]
    rw [read?, find, hp, hstat]
    rfl

end View

end HotPath.FileSystem
