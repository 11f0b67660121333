import HotPath.FileSystem.Edit
import HotPath.Proofs.FileSystem.Linkless

/-!
# What other programs make

In a tree without links, another program makes the directories above a file all or none: where
nothing is in the way it makes them (`Edit.run_needDirectories`), and a file that is in the way
stops it before it has made any (`Edit.run_needDirectories_of_obstacle`). So what it does when it
writes a file is fixed by what is in the way and by what is there already.
-/

namespace HotPath.FileSystem

/-- The path to the address that is given in reverse. -/
def pathTo (names : List String) : Path := ⟨.slash, names.reverse⟩

/-- The path is too long to lead anywhere. -/
def IsTooLong (p : Path) : Prop := maxPathBytes < p.text.utf8ByteSize

instance (p : Path) : Decidable (IsTooLong p) := inferInstanceAs (Decidable (_ < _))

variable {v : View} {p : Path} {name : String} {names above : List String}

theorem not_isTooLong_above (h : ¬ IsTooLong (pathTo (name :: above))) :
    ¬ IsTooLong (pathTo above) := by
  unfold pathTo at h
  rw [List.reverse_cons] at h
  exact text_short_of_append h

theorem free_reverse {t : Tree} (hup : t.get? above.reverse = some .directory)
    (hnames : ∀ n ∈ name :: above, IsFileName n) (hnone : t.get? (name :: above).reverse = none) :
    Free t (name :: above).reverse where
  above := by rw [List.reverse_cons, List.dropLast_concat, hup]
  named n hn := hnames n (List.mem_reverse.mp hn)
  replaceable := Tree.replaceable_of_none hnone

namespace View

/-- The view with a directory at an address, which is given in reverse, and with the directories
above it. -/
def withWay (v : View) (names : List String) (h : v.tree.Clear names) : View where
  tree := v.tree.withWay names
  cwd := v.cwd
  rooted := v.rooted.withWay h
  named := v.named.withWay h.named
  inDirectory := Tree.directory_withWay v.inDirectory names

theorem locate_tooLong (h : IsTooLong p) (purpose : Purpose) :
    v.locate purpose p = .error .nameTooLong := if_pos h

theorem stat_tooLong (h : IsTooLong p) (purpose : Purpose) :
    v.stat purpose p = .error .nameTooLong :=
  stat_nameTooLong_iff.mpr (locate_tooLong h purpose)

theorem makeDirectory_tooLong (h : IsTooLong p) : v.makeDirectory p = .error .nameTooLong := by
  rw [makeDirectory, locate_tooLong h]
  rfl

section Names

variable (hv : v.tree.Linkless) (hnames : ∀ n ∈ name :: above, IsFileName n)
  (hshort : ¬ IsTooLong (pathTo (name :: above)))

include hv hnames hshort

theorem locate_pathTo (purpose : Purpose) :
    v.locate purpose (pathTo (name :: above)) =
      if v.tree.get? above.reverse = some .directory then .ok ⟨(name :: above).reverse, 0⟩
      else .error (if (v.tree.obstacle? above).isSome then .notADirectory else .notFound) :=
  (if_neg hshort).trans (walk_names v.rooted hv hnames)

theorem stat_pathTo {e : Entry} (purpose : Purpose)
    (hentry : v.tree.get? (name :: above).reverse = some e) :
    v.stat purpose (pathTo (name :: above)) = .ok e := by
  have hlocate := locate_pathTo hv hnames hshort purpose
  rw [if_pos (v.rooted.directory_above hentry)] at hlocate
  exact stat_eq_ok_iff.mpr ⟨_, hlocate, hentry⟩

theorem not_directory_of_stat
    (hdir : v.tree.get? (name :: above).reverse ≠ some .directory) :
    v.stat .find (pathTo (name :: above)) ≠ .ok .directory := by
  intro hstat
  obtain ⟨spot, hspot, hthere⟩ := stat_eq_ok_iff.mp hstat
  rw [locate_pathTo hv hnames hshort] at hspot
  split at hspot
  · cases hspot
    exact hdir hthere
  · cases hspot

theorem makeDirectory_pathTo :
    v.makeDirectory (pathTo (name :: above)) =
      if v.tree.get? above.reverse = some .directory then
        match v.tree.get? (name :: above).reverse with
        | some _ => .error .alreadyThere
        | none => v.putAt (name :: above).reverse .directory
      else .error (if (v.tree.obstacle? above).isSome then .notADirectory else .notFound) := by
  rw [makeDirectory, locate_pathTo hv hnames hshort]
  split
  · rfl
  · rfl

end Names

/-- What becomes of a file in a directory. -/
theorem replace_names (hv : v.tree.Linkless) (hnames : ∀ n ∈ names, IsFileName n)
    (hup : v.tree.get? names.dropLast = some .directory) (content : Bytes) (executable : Bool) :
    v.replace ⟨.slash, names⟩ content executable =
      if IsTooLong ⟨.slash, names⟩ then .error .nameTooLong
      else if v.tree.get? names = some .directory then .error .isADirectory
      else v.putAt names (.file content executable) := by
  rw [replace, fileSpot]
  by_cases hlong : IsTooLong ⟨.slash, names⟩
  · rw [if_pos hlong, locate_tooLong hlong]
    rfl
  rw [if_neg hlong]
  have hlocate : v.locate .make ⟨.slash, names⟩ = .ok ⟨names, 0⟩ := by
    induction names using List.reverseRecOn with
    | nil => exact locate_eq_ok_iff.mpr ⟨hlong, .done⟩
    | append_singleton above name _ =>
      rw [List.dropLast_concat] at hup
      have hshort : ¬ IsTooLong (pathTo (name :: above.reverse)) := by simpa [pathTo] using hlong
      have hmake := locate_pathTo hv (by simpa [or_comm] using hnames) hshort .make
      rw [List.reverse_reverse, if_pos hup, pathTo, List.reverse_cons, List.reverse_reverse]
        at hmake
      exact hmake
  rw [hlocate]
  have hthere : v.tree.at? ⟨names, 0⟩ = v.tree.get? names := rfl
  dsimp only [bind, Except.bind]
  rw [hthere]
  cases hentry : v.tree.get? names with
  | none => rfl
  | some e => cases e <;> rfl

end View

namespace Edit

open View

theorem run_needDirectory (p : Path) (v : View) :
    (needDirectory p).run.run v =
      match v.makeDirectory p with
      | .ok v' => (.ok (), v')
      | .error cause =>
        match v.stat .find p with
        | .ok .directory => (.ok (), v)
        | _ => (.error ⟨cause, p.text⟩, v) := by
  have hstep := run_step p (·.makeDirectory p) v
  cases hmake : v.makeDirectory p with
  | ok v' =>
    rw [hmake] at hstep
    exact run_tryCatch_ok hstep
  | error cause =>
    rw [hmake] at hstep
    rw [needDirectory, run_tryCatch_error hstep, run_get_bind]
    rcases v.stat .find p with _ | (_ | _ | _) <;> rfl

theorem run_needDirectory_error {cause : Cause} (h : v.makeDirectory p = .error cause)
    (hdir : v.stat .find p ≠ .ok .directory) :
    (needDirectory p).run.run v = (.error ⟨cause, p.text⟩, v) := by
  rw [run_needDirectory, h]
  dsimp only
  split
  · rename_i hstat
    exact absurd hstat hdir
  · rfl

section Names

variable (hv : v.tree.Linkless) (hnames : ∀ n ∈ name :: above, IsFileName n)
  (hshort : ¬ IsTooLong (pathTo (name :: above)))

include hv hnames hshort

theorem run_needDirectory_of_directory
    (hdir : v.tree.get? (name :: above).reverse = some .directory) :
    (needDirectory (pathTo (name :: above))).run.run v = (.ok (), v) := by
  have hmake := makeDirectory_pathTo hv hnames hshort
  rw [if_pos (v.rooted.directory_above hdir), hdir] at hmake
  rw [run_needDirectory, hmake, stat_pathTo hv hnames hshort .find hdir]

theorem run_needDirectory_of_obstacle {cause : Cause}
    (hobstacle : v.tree.obstacle? (name :: above) = some cause) :
    (needDirectory (pathTo (name :: above))).run.run v =
      (.error ⟨cause, (pathTo (name :: above)).text⟩, v) := by
  have hdir : v.tree.get? (name :: above).reverse ≠ some .directory := by
    intro hdir
    rw [Tree.obstacle?_of_directory v.rooted hdir] at hobstacle
    cases hobstacle
  refine run_needDirectory_error ?_ (not_directory_of_stat hv hnames hshort hdir)
  rw [makeDirectory_pathTo hv hnames hshort]
  rw [Tree.obstacle?] at hobstacle
  split at hobstacle
  · rename_i cause' habove
    cases hobstacle
    rw [if_neg, habove]
    · rfl
    · intro hup
      rw [Tree.obstacle?_of_directory v.rooted hup] at habove
      cases habove
  · split at hobstacle
    · rename_i hfile
      cases hobstacle
      unfold Tree.isFileAt at hfile
      split at hfile
      · rename_i hentry
        rw [if_pos (v.rooted.directory_above hentry), hentry]
      · cases hfile
    · cases hobstacle

theorem run_needDirectory_of_above (hup : v.tree.get? above.reverse = some .directory)
    (hfree : Free v.tree (name :: above).reverse)
    (hnone : v.tree.get? (name :: above).reverse = none) :
    (needDirectory (pathTo (name :: above))).run.run v = (.ok (), v.insert _ .directory hfree) := by
  have hmake := makeDirectory_pathTo hv hnames hshort
  rw [if_pos hup, hnone] at hmake
  rw [run_needDirectory, hmake, putAt_eq_ok_iff.mpr ⟨hfree, rfl⟩]

theorem run_needDirectory_of_missing (hfree : v.tree.obstacle? above = none)
    (hup : v.tree.get? above.reverse ≠ some .directory)
    (hnone : v.tree.get? (name :: above).reverse = none) :
    (needDirectory (pathTo (name :: above))).run.run v =
      (.error ⟨.notFound, (pathTo (name :: above)).text⟩, v) := by
  refine run_needDirectory_error ?_
    (not_directory_of_stat hv hnames hshort (Tree.replaceable_of_none hnone))
  rw [makeDirectory_pathTo hv hnames hshort, if_neg hup, hfree]
  rfl

end Names

theorem run_needDirectories_tooLong (h : IsTooLong (pathTo names)) :
    (needDirectories names).run.run v = (.error ⟨.nameTooLong, (pathTo names).text⟩, v) := by
  cases names with
  | nil => exact absurd h (by decide)
  | cons name above =>
    have hneed := run_needDirectory_error (makeDirectory_tooLong (v := v) h)
      (by simp [stat_tooLong h])
    change (tryCatch (needDirectory (pathTo (name :: above))) _).run.run v = _
    rw [run_tryCatch_error hneed]
    rfl

theorem run_needDirectories_of_obstacle (hv : v.tree.Linkless)
    (hnames : ∀ n ∈ names, IsFileName n) (hshort : ¬ IsTooLong (pathTo names)) {cause : Cause}
    (hobstacle : v.tree.obstacle? names = some cause) :
    (needDirectories names).run.run v = (.error ⟨cause, (pathTo names).text⟩, v) := by
  cases names with
  | nil => cases hobstacle
  | cons name above =>
    have hneed := run_needDirectory_of_obstacle hv hnames hshort hobstacle
    change (tryCatch (needDirectory (pathTo (name :: above))) _).run.run v = _
    rw [run_tryCatch_error hneed]
    dsimp only
    rw [if_pos (Tree.ne_notFound_of_obstacle? hobstacle)]
    rfl

/-- Where nothing is in the way, the directories that are missing are made. -/
theorem run_needDirectories (h : v.tree.Clear names) (hshort : ¬ IsTooLong (pathTo names)) :
    (needDirectories names).run.run v = (.ok (), v.withWay names h) := by
  induction names with
  | nil => rfl
  | cons name above ih =>
    have hv := h.linkless
    change (tryCatch (needDirectory (pathTo (name :: above))) _).run.run v = _
    cases hentry : v.tree.get? (name :: above).reverse with
    | some e =>
      obtain rfl := hv.eq_directory (Tree.obstacle?_eq_none_iff.mp h.free).2 hentry
      rw [run_tryCatch_ok (run_needDirectory_of_directory hv h.named hshort hentry)]
      exact congrArg (Prod.mk _) (View.ext (Tree.withWay_of_directory v.rooted hentry).symm rfl)
    | none =>
      have htree : v.tree.withWay (name :: above) =
          (v.tree.withWay above).insert (name :: above).reverse .directory := by
        rw [Tree.withWay, hentry]
      by_cases hup : v.tree.get? above.reverse = some .directory
      · have hfree := free_reverse hup h.named hentry
        rw [run_tryCatch_ok (run_needDirectory_of_above hv h.named hshort hup hfree hentry)]
        rw [Tree.withWay_of_directory v.rooted hup] at htree
        exact congrArg (Prod.mk _) (View.ext htree.symm rfl)
      · -- the directory above is missing as well, so the way to it is made first
        have hneed := run_needDirectory_of_missing hv h.named hshort h.of_cons.free hup hentry
        have hway := ih h.of_cons (not_isTooLong_above hshort)
        have hup' := h.of_cons.directory
        have hentry' := (v.tree.get?_withWay_below name above).trans hentry
        have hfree : Free (v.withWay above h.of_cons).tree (name :: above).reverse :=
          free_reverse hup' h.named hentry'
        have hneed' :=
          run_needDirectory_of_above (hv.withWay above) h.named hshort hup' hfree hentry'
        rw [run_tryCatch_error hneed]
        change (needDirectories above >>= fun _ =>
          needDirectory (pathTo (name :: above))).run.run v = _
        rw [run_bind_ok hway, hneed']
        exact congrArg (Prod.mk _) (View.ext htree.symm rfl)

/-! ## Writing a file -/

section File

variable {content : Bytes} {executable : Bool}

theorem run_put_file_tooLong (h : IsTooLong (pathTo names.dropLast.reverse)) :
    (put names (.file content executable)).run.run v =
      (.error ⟨.nameTooLong, (pathTo names.dropLast.reverse).text⟩, v) :=
  run_bind_error (run_needDirectories_tooLong h)

theorem run_put_file_of_obstacle (hv : v.tree.Linkless) (hnames : ∀ n ∈ names, IsFileName n)
    (hshort : ¬ IsTooLong (pathTo names.dropLast.reverse)) {cause : Cause}
    (hobstacle : v.tree.obstacle? names.dropLast.reverse = some cause) :
    (put names (.file content executable)).run.run v =
      (.error ⟨cause, (pathTo names.dropLast.reverse).text⟩, v) := by
  have habove : ∀ n ∈ names.dropLast.reverse, IsFileName n := fun n hn =>
    hnames n (List.mem_of_mem_dropLast (List.mem_reverse.mp hn))
  exact run_bind_error (run_needDirectories_of_obstacle hv habove hshort hobstacle)

/-- To write a file is to make the directories above it and then the file. -/
theorem run_put_file (h : v.tree.Clear names.dropLast.reverse)
    (hshort : ¬ IsTooLong (pathTo names.dropLast.reverse)) :
    (put names (.file content executable)).run.run v =
      (step ⟨.slash, names⟩ (·.replace ⟨.slash, names⟩ content executable)).run.run
        (v.withWay names.dropLast.reverse h) :=
  run_bind_ok (run_needDirectories h hshort)

end File

end Edit

end HotPath.FileSystem
