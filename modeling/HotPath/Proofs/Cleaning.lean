import HotPath.Proofs.FileSystem.Naming
import HotPath.Proofs.Outputs

/-!
# Cleaning leaves no output

Deleting a file takes entries away, and a pattern finds nothing in a smaller tree that it does not
find in a larger one (`IsOutput.of_within`). So no file that is deleted makes another output appear,
and after a cleaning that comes to its end there is no output (`not_isOutput_of_cleaned`). A path to
which no output leads names the same entry before and after (`View.held?_afterCleaning`).

A file is deleted by its name, but it is an output by what its name leads to. What a path leads to
stands behind the entry that it names, so a path that has been deleted leads nowhere.
-/

namespace HotPath

open FileSystem Glob

/-! ## Searches in smaller trees -/

namespace Glob

variable {v v' : View} {directories : Bool} {steps : List Step} {p q : Path}

theorem leadsOn_of_within (hwithin : v.Within v') {name : String} {e e' : Entry}
    (hshape : e'.shape = e.shape) (h : leadsOn v p name e = .ok true) :
    leadsOn v' p name e' = .ok true := by
  cases e with
  | directory =>
    rw [Entry.eq_directory_of_shape hshape]
    rfl
  | file => cases h
  | link target =>
    rw [Entry.eq_link_of_shape hshape]
    have hthere := mapError_eq_ok_iff.mp h
    exact mapError_eq_ok_iff.mpr (hwithin.isDirectory hthere)

theorem Leads.exists_append (h : Leads v directories steps p q) :
    ∃ back, q = ⟨p.root, p.names ++ back⟩ := by
  induction h with
  | here => exact ⟨[], by simp⟩
  | @exactly name _ p _ _ _ ih =>
    obtain ⟨back, hback⟩ := ih
    exact ⟨name :: back, by rw [hback]; simp [Path.child]⟩
  | @covering _ _ p _ name _ _ _ _ _ _ _ ih =>
    obtain ⟨back, hback⟩ := ih
    exact ⟨name :: back, by rw [hback]; simp [Path.child]⟩
  | @descend _ _ _ names _ _ ih =>
    obtain ⟨back, hback⟩ := ih
    exact ⟨names ++ back, by rw [hback]; simp⟩

/-- A pattern that leads to something leads there in a larger tree. -/
theorem Leads.of_within (hwithin : v.Within v') (h : Leads v directories steps p q) {e : Entry}
    (hq : v.find q = .ok (some e)) : Leads v' directories steps p q := by
  induction h with
  | here => exact .here
  | exactly hthere _ ih =>
    refine .exactly ?_ (ih hq)
    split at hthere
    · rename_i hends
      rw [if_pos hends]
      exact hwithin.isPresent hthere
    · rename_i hends
      rw [if_neg hends]
      exact hwithin.isDirectory hthere
  | @covering _ _ p _ name _ _ hlist hmember hcovers hon hlead ih =>
    obtain ⟨back, hback⟩ := hlead.exists_append
    have hthere : v.find ⟨p.root, p.names ++ name :: back⟩ = .ok (some e) := by
      rw [← hq, hback, Path.child, List.append_assoc, List.singleton_append]
    obtain ⟨spot, hspot, hdirectory⟩ := View.exists_locate_of_append (by simp) hthere
    obtain ⟨a, hlocate, hentry⟩ := View.exists_of_mem_list hlist hmember
    obtain rfl : spot = ⟨a, 0⟩ := Except.ok.inj (hspot.symm.trans hlocate)
    obtain ⟨entry', hentry', hshape⟩ := hwithin.tree _ _ hentry
    exact .covering (View.list_of_locate (hwithin.locate hlocate hdirectory))
      (v'.tree.mem_members_iff.mpr hentry') hcovers
      (fun hends => leadsOn_of_within hwithin hshape (hon hends)) (ih hq)
  | @descend _ p _ names hnames hlead ih =>
    refine .descend ?_ (ih hq)
    refine hnames.imp id fun hbelow => ?_
    obtain ⟨a, hlocate, hne, hentry⟩ := View.mem_directoriesBelow_iff.mp hbelow
    obtain ⟨back, hback⟩ := hlead.exists_append
    have hthere : v.find ⟨p.root, p.names ++ (names ++ back)⟩ = .ok (some e) := by
      rw [← hq, hback, List.append_assoc]
    obtain ⟨spot, hspot, hdirectory⟩ := View.exists_locate_of_append (by simp [hne]) hthere
    obtain rfl : spot = ⟨a, 0⟩ := Except.ok.inj (hspot.symm.trans hlocate)
    exact View.mem_directoriesBelow_iff.mpr
      ⟨a, hwithin.locate hlocate hdirectory, hne, hwithin.tree.directory hentry⟩

end Glob

variable {v v' : View} {workDir p : Path} {pattern : PathPattern} {files : List Path}

theorem IsOutput.of_within (hwithin : v.Within v') (h : IsOutput v workDir pattern p) :
    IsOutput v' workDir pattern p := by
  obtain ⟨hdirectory, hlead, hfile⟩ := h
  obtain ⟨content, executable, hfind⟩ := View.isFile_iff.mp hfile
  exact ⟨hwithin.isDirectory hdirectory, hlead.of_within hwithin hfind, hwithin.isFile hfile⟩

/-! ## Deleted files -/

namespace FileSystem.View

variable {refused : Path → Bool}

theorem not_isFile_of_held? (h : v.held? p = none) : v.isFile p ≠ .ok true := by
  intro hfile
  obtain ⟨content, executable, hfind⟩ := isFile_iff.mp hfile
  obtain ⟨e, hheld⟩ := exists_held?_of_stat (find_eq_some_iff.mp hfind).2
  rw [h] at hheld
  cases hheld

theorem afterDiscard_spec (h : v.afterDiscard refused p = .ok v') :
    v'.Within v ∧ v'.isFile p ≠ .ok true := by
  unfold afterDiscard at h
  split at h
  · cases h
  · split at h
    · rename_i hunlink
      cases h
      exact ⟨unlink_within hunlink, not_isFile_of_held? (held?_unlink hunlink)⟩
    · rename_i hunlink
      cases h
      exact ⟨.refl v, not_isFile_of_held? (held?_of_unlink_notFound hunlink)⟩
    · cases h

theorem afterDiscards_within (refused : Path → Bool) (files : List Path) (v : View) :
    (v.afterDiscards refused files).2.Within v := by
  induction files generalizing v with
  | nil => exact .refl v
  | cons p files ih =>
    rw [afterDiscards]
    split
    · rename_i v' hdiscard
      exact (ih v').trans (afterDiscard_spec hdiscard).1
    · exact .refl v

theorem not_isFile_of_afterDiscards (h : v.afterDiscards refused files = (.ok (), v')) (p : Path)
    (hp : p ∈ files) : v'.isFile p ≠ .ok true := by
  induction files generalizing v with
  | nil => cases hp
  | cons q files ih =>
    rw [afterDiscards] at h
    split at h
    · rename_i after hdiscard
      rcases List.mem_cons.mp hp with rfl | hp
      · intro hfile
        have hwithin := afterDiscards_within refused files after
        rw [h] at hwithin
        exact (afterDiscard_spec hdiscard).2 (hwithin.isFile hfile)
      · exact ih h hp
    · cases h

theorem afterCleaning_within (refused : Path → Bool) (workDir : Path) (pattern : PathPattern)
    (v : View) : (v.afterCleaning refused workDir pattern).2.Within v := by
  unfold afterCleaning
  split
  · exact afterDiscards_within refused _ v
  · exact .refl v

end FileSystem.View

/-! ## Cleaning -/

/-- After the cleaning there is no output. -/
theorem not_isOutput_of_cleaned {refused : Path → Bool}
    (h : v.afterCleaning refused workDir pattern = (.ok (), v')) (p : Path) :
    ¬ IsOutput v' workDir pattern p := by
  intro hp
  have hwithin := View.afterCleaning_within refused workDir pattern v
  rw [h] at hwithin
  unfold View.afterCleaning at h
  split at h
  · rename_i files hfiles
    have hlisted := (mem_filesFound_iff hfiles).mpr (hp.of_within hwithin)
    exact View.not_isFile_of_afterDiscards h p hlisted hp.2.2
  · cases h

/-- Where entries have only been taken away since the cleaning, there is no output. -/
theorem not_isOutput_of_within_cleaned {refused : Path → Bool} {later : View}
    (h : v.afterCleaning refused workDir pattern = (.ok (), v')) (hwithin : later.Within v')
    (p : Path) : ¬ IsOutput later workDir pattern p := by
  intro hp
  exact not_isOutput_of_cleaned h p (hp.of_within hwithin)

/-! ## What is not deleted -/

namespace FileSystem.View

/-- No file of these leads where the path leads. -/
def Apart (v : View) (p : Path) (files : List Path) : Prop :=
  ∀ q ∈ files, ∀ spot, v.locate .find p = .ok spot → v.locate .find q ≠ .ok spot

section Apart

variable {refused : Path → Bool} {q : Path} {start : View} (hlink : start.NoLink p)
  (hapart : start.Apart p files)

include hlink hapart

theorem not_samePlace_of_apart (hwithin : v.Within start) (hq : q ∈ files) {a : Address} {e : Entry}
    (hlocate : v.locate .findLink q = .ok ⟨a, 0⟩) (hentry : v.tree.get? a = some e) :
    ¬ v.SamePlace p q := by
  rintro ⟨spot, hp, hspot⟩
  obtain rfl : (⟨a, 0⟩ : Place) = spot := Except.ok.inj (hlocate.symm.trans hspot)
  have hp' := hwithin.locate hp hentry
  have hq' := hwithin.locate hlocate hentry
  -- what stands there is no link, so both paths lead there as well
  have hqlink : start.NoLink q := by
    intro target hheld
    obtain ⟨spot, hspot, htarget⟩ := held?_eq_some_iff.mp hheld
    obtain rfl : (⟨a, 0⟩ : Place) = spot := Except.ok.inj (hq'.symm.trans hspot)
    exact hlink.at? hp' target htarget
  exact hapart q hq _ (hlink.locate hp') (hqlink.locate hq')

variable (hfiles : ∀ q ∈ files, start.isFile q = .ok true)

include hfiles

theorem held?_afterDiscard_of_apart (hwithin : v.Within start) (hq : q ∈ files)
    (h : v.afterDiscard refused q = .ok v') : v'.held? p = v.held? p := by
  unfold afterDiscard at h
  split at h
  · cases h
  · split at h
    · rename_i hunlink
      cases h
      obtain ⟨a, e, -, hlocate, hentry, -⟩ := exists_of_unlink hunlink
      have hdead := deadEnd_of_isFile (hfiles q hq) (hwithin.locate hlocate hentry)
      apply held?_unlink_of_ne hunlink
      · intro b hb
        have hab : (⟨a, 0⟩ : Place) = ⟨b, 0⟩ := Except.ok.inj (hlocate.symm.trans hb)
        obtain rfl : a = b := congrArg Place.address hab
        exact hdead.of_within hwithin.tree
      · exact not_samePlace_of_apart hlink hapart hwithin hq hlocate hentry
    · cases h
      rfl
    · cases h

theorem held?_afterDiscards_of_apart {rest : List Path} (hrest : ∀ q ∈ rest, q ∈ files)
    (hwithin : v.Within start) : (v.afterDiscards refused rest).2.held? p = v.held? p := by
  induction rest generalizing v with
  | nil => rfl
  | cons q rest ih =>
    rw [afterDiscards]
    split
    · rename_i after hdiscard
      have hone := held?_afterDiscard_of_apart hlink hapart hfiles hwithin
        (hrest q List.mem_cons_self) hdiscard
      have hothers := ih (fun q hq => hrest q (List.mem_cons_of_mem _ hq))
        ((afterDiscard_spec hdiscard).1.trans hwithin)
      rw [hothers, hone]
    · rfl

end Apart

/-- Cleaning changes nothing at a path to which no output leads. -/
theorem held?_afterCleaning {refused : Path → Bool} (hlink : v.NoLink p)
    (hapart : ∀ q, IsOutput v workDir pattern q → ∀ spot, v.locate .find p = .ok spot →
      v.locate .find q ≠ .ok spot) :
    (v.afterCleaning refused workDir pattern).2.held? p = v.held? p := by
  unfold afterCleaning
  split
  · rename_i files hfiles
    have houtputs {q : Path} (hq : q ∈ files) := (mem_filesFound_iff hfiles).mp hq
    exact held?_afterDiscards_of_apart hlink (fun q hq => hapart q (houtputs hq))
      (fun q hq => (houtputs hq).2.2) (fun _ hq => hq) (.refl v)
  · rfl

end FileSystem.View

end HotPath
