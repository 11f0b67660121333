import HotPath.Proofs.FileSystem.Beside
import HotPath.Proofs.TwoRuns

/-!
# One change in two trees

Two views are seen from one place, one path leads to one directory in both, and their trees are
related (`Alongside`). If the relation between the trees admits changes at an address, then another
program that writes a file there does the same in both views (`Alongside.respects_put`), and so
does whoever writes or deletes an entry of the directory (`Alongside.write_child`,
`Alongside.unlink_child`).
-/

namespace HotPath.FileSystem

open View

variable {T : Tree → Tree → Prop} {A : Address → Prop} {p : Path} {w a : Address} {cwd : Place}
  {v v' : View} {name : String} {names : List String}

/-- Where a relation between trees admits changes, the same is in the way in both. -/
theorem Admits.obstacle?_eq (hT : Admits T A) {t t' : Tree} (h : T t t') (ha : A a)
    (hnames : names.reverse <+: a) : t'.obstacle? names = t.obstacle? names := by
  induction names with
  | nil => rfl
  | cons name above ih =>
    have habove : above.reverse <+: a := by
      rw [List.reverse_cons] at hnames
      exact (List.prefix_append _ _).trans hnames
    rw [Tree.obstacle?, Tree.obstacle?, ih habove, hT.file h ha hnames]

/-- Two views from one place, in both of which a path leads to the directory at `w`, with related
trees. -/
structure Alongside (T : Tree → Tree → Prop) (p : Path) (w : Address) (cwd : Place)
    (v v' : View) : Prop where
  cwd_left : v.cwd = cwd
  cwd_right : v'.cwd = cwd
  left : v.ComesTo p w
  right : v'.ComesTo p w
  trees : T v.tree v'.tree

namespace Alongside

/-- Trees without links are changed, and no directory is taken away. -/
theorem change (h : Alongside T p w cwd v v') {u u' : View} (hcwd : u.cwd = v.cwd)
    (hcwd' : u'.cwd = v'.cwd) (hu : u.tree.Linkless) (hu' : u'.tree.Linkless)
    (hdirs : ∀ a, v.tree.get? a = some .directory → u.tree.get? a = some .directory)
    (hdirs' : ∀ a, v'.tree.get? a = some .directory → u'.tree.get? a = some .directory)
    (htrees : T u.tree u'.tree) : Alongside T p w cwd u u' where
  cwd_left := hcwd.trans h.cwd_left
  cwd_right := hcwd'.trans h.cwd_right
  left := h.left.of_directories hcwd hu hdirs
  right := h.right.of_directories hcwd' hu' hdirs'
  trees := htrees

/-- What is put at an address is put there in both views, or in neither. -/
theorem putAt (h : Alongside T p w cwd v v') (hT : Admits T A) (ha : A a)
    (habove : v'.tree.get? a.dropLast = v.tree.get? a.dropLast) {e : Entry}
    (he : e.isLink = false) : Matching (Alongside T p w cwd) (v.putAt a e) (v'.putAt a e) := by
  have hiff : Free v'.tree a ↔ Free v.tree a := by
    rw [free_iff, free_iff, Replaceable, Replaceable, habove, hT.entry h.trees ha]
  unfold View.putAt
  by_cases hfree : Free v.tree a
  · have hfree' := hiff.mpr hfree
    rw [dif_pos hfree, dif_pos hfree']
    refine .ok (h.change rfl rfl ?_ ?_ ?_ ?_ (hT.insert e h.trees ha))
    · exact h.left.linkless.insert hfree.replaceable.ne_nil he
    · exact h.right.linkless.insert hfree.replaceable.ne_nil he
    · exact fun _ => Tree.directory_insert hfree.replaceable e
    · exact fun _ => Tree.directory_insert hfree'.replaceable e
  · rw [dif_neg hfree, dif_neg (mt hiff.mp hfree)]
    exact .error _

theorem removeAt (h : Alongside T p w cwd v v') (hT : Admits T A) (ha : A a) :
    Matching (Alongside T p w cwd) (v.removeAt a) (v'.removeAt a) := by
  have hiff : Replaceable v'.tree a ↔ Replaceable v.tree a := by
    rw [Replaceable, Replaceable, hT.entry h.trees ha]
  unfold View.removeAt
  by_cases hreplaceable : Replaceable v.tree a
  · have hreplaceable' := hiff.mpr hreplaceable
    rw [dif_pos hreplaceable, dif_pos hreplaceable']
    refine .ok (h.change rfl rfl ?_ ?_ ?_ ?_ (hT.erase h.trees ha))
    · exact h.left.linkless.erase hreplaceable.ne_nil
    · exact h.right.linkless.erase hreplaceable.ne_nil
    · exact fun _ => Tree.directory_erase hreplaceable
    · exact fun _ => Tree.directory_erase hreplaceable'
  · rw [dif_neg hreplaceable, dif_neg (mt hiff.mp hreplaceable)]
    exact .error _

theorem replace_names (h : Alongside T p w cwd v v') (hT : Admits T A) (ha : A names)
    (hnames : ∀ n ∈ names, IsFileName n) (hup : v.tree.get? names.dropLast = some .directory)
    (hup' : v'.tree.get? names.dropLast = some .directory) (content : Bytes)
    (executable : Bool) :
    Matching (Alongside T p w cwd) (v.replace ⟨.slash, names⟩ content executable)
      (v'.replace ⟨.slash, names⟩ content executable) := by
  rw [View.replace_names h.left.linkless hnames hup,
    View.replace_names h.right.linkless hnames hup', hT.entry h.trees ha]
  by_cases hlong : IsTooLong ⟨.slash, names⟩
  · rw [if_pos hlong, if_pos hlong]
    exact .error _
  rw [if_neg hlong, if_neg hlong]
  by_cases hdir : v.tree.get? names = some .directory
  · rw [if_pos hdir, if_pos hdir]
    exact .error _
  rw [if_neg hdir, if_neg hdir]
  exact h.putAt hT ha (hup'.trans hup.symm) rfl

/-- Another program that writes a file does the same in both views. -/
theorem respects_put (hT : Admits T A) (ha : A names) (hnames : ∀ n ∈ names, IsFileName n)
    (content : Bytes) (executable : Bool) :
    Respects (Alongside T p w cwd) (Edit.put names (.file content executable)) := by
  intro v v' h
  have hstart : names.dropLast.reverse.reverse <+: names := by
    rw [List.reverse_reverse]
    exact List.dropLast_prefix names
  have hsame := hT.obstacle?_eq h.trees ha hstart
  by_cases hlong : IsTooLong (pathTo names.dropLast.reverse)
  · rw [Edit.run_put_file_tooLong hlong, Edit.run_put_file_tooLong hlong]
    exact ⟨rfl, h⟩
  cases hfree : v.tree.obstacle? names.dropLast.reverse with
  | some cause =>
    rw [Edit.run_put_file_of_obstacle h.left.linkless hnames hlong hfree,
      Edit.run_put_file_of_obstacle h.right.linkless hnames hlong (hsame.trans hfree)]
    exact ⟨rfl, h⟩
  | none =>
    have habove : ∀ n ∈ names.dropLast.reverse, IsFileName n := fun n hn =>
      hnames n (List.mem_of_mem_dropLast (List.mem_reverse.mp hn))
    have hclear : v.tree.Clear names.dropLast.reverse := ⟨h.left.linkless, habove, hfree⟩
    have hclear' : v'.tree.Clear names.dropLast.reverse :=
      ⟨h.right.linkless, habove, hsame.trans hfree⟩
    rw [Edit.run_put_file hclear hlong, Edit.run_put_file hclear' hlong]
    have hway : Alongside T p w cwd (v.withWay _ hclear) (v'.withWay _ hclear') :=
      h.change rfl rfl (h.left.linkless.withWay _) (h.right.linkless.withWay _)
        (fun _ hb => Tree.directory_withWay hb _) (fun _ hb => Tree.directory_withWay hb _)
        (hT.way h.trees ha hstart)
    have hup := hclear.directory
    have hup' := hclear'.directory
    rw [List.reverse_reverse] at hup hup'
    exact Edit.agree_step hway (hway.replace_names hT ha hnames hup hup' content executable)

/-! ## The entries of the directory -/

section Child

variable (h : Alongside T p w cwd v v') (hT : Admits T A) (hname : A (w ++ [name]))

include h hT hname

/-- Where a name leads there is the same in both views, and it is the entry of that name or a
directory. -/
theorem spotIn_eq_ok (hspot : spotIn p w name = .ok a) :
    v'.tree.get? a = v.tree.get? a ∧ (a = w ++ [name] ∨ v.tree.get? a = some .directory) := by
  rcases h.left.spotIn_eq_ok hspot with rfl | hdir
  · exact ⟨hT.entry h.trees hname, .inl rfl⟩
  · rcases h.right.spotIn_eq_ok hspot with rfl | hdir'
    · exact ⟨hT.entry h.trees hname, .inl rfl⟩
    · exact ⟨hdir'.trans hdir.symm, .inr hdir⟩

theorem stat_child : v'.stat .find (p.child name) = v.stat .find (p.child name) := by
  rw [View.stat, View.stat, h.left.locate_child .find (by simp),
    h.right.locate_child .find (by simp)]
  cases hspot : spotIn p w name with
  | error cause => rfl
  | ok a =>
    have hsame : v'.tree.at? ⟨a, 0⟩ = v.tree.at? ⟨a, 0⟩ := (h.spotIn_eq_ok hT hname hspot).1
    dsimp only [Except.map, Except.bind, bind]
    rw [hsame]

theorem find_child : v'.find (p.child name) = v.find (p.child name) := by
  rw [View.find, View.find, h.stat_child hT hname]

/-- Whoever deletes an entry of the directory does the same in both views. -/
theorem unlink_child :
    Matching (Alongside T p w cwd) (v.unlink (p.child name)) (v'.unlink (p.child name)) := by
  rw [h.left.unlink_child, h.right.unlink_child]
  cases hspot : spotIn p w name with
  | error cause => exact .error _
  | ok a =>
    obtain ⟨hsame, hplace⟩ := h.spotIn_eq_ok hT hname hspot
    dsimp only [Except.bind]
    rw [hsame]
    cases hentry : v.tree.get? a with
    | none => exact .error _
    | some e =>
      cases e with
      | directory => exact .error _
      | link target => exact absurd hentry (h.left.linkless a target)
      | file content executable =>
        obtain rfl := hplace.resolve_right (Tree.replaceable_of_file hentry)
        exact h.removeAt hT hname

/-- Whoever writes an entry of the directory does the same in both views. -/
theorem write_child (hne : name ≠ "") (content : Bytes) :
    Matching (Alongside T p w cwd) (v.write (p.child name) content)
      (v'.write (p.child name) content) := by
  rw [h.left.write_child hne, h.right.write_child hne]
  cases hspot : spotIn p w name with
  | error cause => exact .error _
  | ok a =>
    obtain ⟨hsame, hplace⟩ := h.spotIn_eq_ok hT hname hspot
    dsimp only [Except.bind]
    rw [hsame]
    have hput (ha : Replaceable v.tree a) (executable : Bool) :
        Matching (Alongside T p w cwd) (v.putAt a (.file content executable))
          (v'.putAt a (.file content executable)) := by
      obtain rfl := hplace.resolve_right ha
      refine h.putAt hT hname ?_ rfl
      rw [List.dropLast_concat, h.right.directory, h.left.directory]
    cases hentry : v.tree.get? a with
    | none => exact hput (Tree.replaceable_of_none hentry) false
    | some e =>
      cases e with
      | directory => exact .error _
      | link target => exact absurd hentry (h.left.linkless a target)
      | file old executable => exact hput (Tree.replaceable_of_file hentry) executable

end Child

end Alongside

end HotPath.FileSystem
