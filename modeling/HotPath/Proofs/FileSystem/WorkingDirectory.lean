import HotPath.FileSystem.Edit
import HotPath.FileSystem.Search
import HotPath.Proofs.Results
import HotPath.Proofs.TwoRuns

/-!
# Looking at files from elsewhere

Two views of one tree differ in the working directory only (`View.SameTree`). From both, an absolute
path leads to the same place, so whatever is found, read or changed at absolute paths is the same
(`SameTree.locate`, `SameTree.write`, `SameTree.unlink`). What other programs change is named from
the top (`respects_put`, `respects_remove`). A tool that is looked up as a text need not be
absolute; it is found alike if the search starts from the top (`SameTree.findsExecutable`).
-/

namespace HotPath

open FileSystem

namespace Path

/-- Whatever text is joined to an absolute path, the result is absolute. -/
theorem isAbsolute_join {p : Path} (hp : p.isAbsolute = true) (text : String) :
    (p.join text).isAbsolute = true := by
  unfold join append
  split
  · assumption
  · exact hp

end Path

namespace FileSystem

/-- Two views of the same tree, maybe from different working directories. -/
def View.SameTree (v v' : View) : Prop := v'.tree = v.tree

theorem View.sameTree_workingAt (v : View) (cwd : Place) : v.SameTree (v.workingAt cwd) := by
  unfold workingAt SameTree
  split <;> rfl

theorem View.SameTree.eq_workingAt {v v' : View} (h : v.SameTree v') : v' = v.workingAt v'.cwd := by
  have hdirectory : v.tree.get? v'.cwd.address = some .directory := by
    rw [← h]
    exact v'.inDirectory
  rw [workingAt, dif_pos hdirectory]
  exact View.ext h rfl

/-- Two changed views of the same tree, or two failures for the same cause. -/
theorem matching_of_map_tree {x y : Except Cause View} (h : y.map View.tree = x.map View.tree) :
    Matching View.SameTree x y := by
  cases x with
  | error cause =>
    cases y with
    | error cause' =>
      rw [Except.error.inj h]
      exact .error cause
    | ok w' => cases h
  | ok w =>
    cases y with
    | error cause' => cases h
    | ok w' => exact .ok (Except.ok.inj h)

namespace View.SameTree

variable {v v' : View} {p : Path} (h : v.SameTree v')

include h

/-! ## What is changed at an address -/

theorem putAt (a : Address) (e : Entry) :
    (v'.putAt a e).map View.tree = (v.putAt a e).map View.tree := by
  have htree : v'.tree = v.tree := h
  unfold View.putAt
  by_cases hfree : Free v.tree a
  · rw [dif_pos hfree, dif_pos (htree ▸ hfree)]
    exact congrArg (fun t => Except.ok (Tree.insert t a e)) htree
  · rw [dif_neg hfree, dif_neg (htree ▸ hfree)]

theorem removeAt (a : Address) :
    (v'.removeAt a).map View.tree = (v.removeAt a).map View.tree := by
  have htree : v'.tree = v.tree := h
  unfold View.removeAt
  by_cases hreplaceable : Replaceable v.tree a
  · rw [dif_pos hreplaceable, dif_pos (htree ▸ hreplaceable)]
    exact congrArg (fun t => Except.ok (Tree.erase t a)) htree
  · rw [dif_neg hreplaceable, dif_neg (htree ▸ hreplaceable)]

/-! ## What is found at absolute paths -/

section Found

variable (hp : p.isAbsolute = true)

include hp

theorem locate (purpose : Purpose) : v'.locate purpose p = v.locate purpose p := by
  have hstart : v'.start p = v.start p := by rw [start, start, if_pos hp, if_pos hp]
  rw [View.locate, View.locate, hstart, h]

theorem stat (purpose : Purpose) : v'.stat purpose p = v.stat purpose p := by
  rw [View.stat, View.stat, h.locate hp, h]

theorem find : v'.find p = v.find p := by rw [View.find, View.find, h.stat hp]

theorem isFile : v'.isFile p = v.isFile p := by
  rw [View.isFile, View.isFile, read?, read?, h.find hp]

theorem isDirectory : v'.isDirectory p = v.isDirectory p := by
  rw [View.isDirectory, View.isDirectory, h.find hp]

theorem isPresent : v'.isPresent p = v.isPresent p := by
  rw [View.isPresent, View.isPresent, h.find hp]

theorem list : v'.list p = v.list p := by rw [View.list, View.list, h.locate hp, h]

theorem directoriesBelow : v'.directoriesBelow p = v.directoriesBelow p := by
  rw [View.directoriesBelow, View.directoriesBelow, h.locate hp, h]

/-! ## What is changed at absolute paths -/

theorem fileSpot : v'.fileSpot p = v.fileSpot p := by
  rw [View.fileSpot, View.fileSpot, h.locate hp, h]

theorem write (content : Bytes) :
    (v'.write p content).map View.tree = (v.write p content).map View.tree := by
  rw [View.write, View.write, h.fileSpot hp]
  cases v.fileSpot p with
  | error cause => rfl
  | ok spot => exact h.putAt _ _

theorem replace (content : Bytes) (executable : Bool) :
    (v'.replace p content executable).map View.tree =
      (v.replace p content executable).map View.tree := by
  rw [View.replace, View.replace, h.fileSpot hp]
  cases v.fileSpot p with
  | error cause => rfl
  | ok spot => exact h.putAt _ _

/-- A change at a place depends on the tree only if it does so at every place. -/
theorem map_tree_bind (purpose : Purpose) {change change' : Place → Except Cause View}
    (hchange : ∀ spot, (change' spot).map View.tree = (change spot).map View.tree) :
    (v'.locate purpose p >>= change').map View.tree =
      (v.locate purpose p >>= change).map View.tree := by
  rw [h.locate hp]
  cases v.locate purpose p with
  | error cause => rfl
  | ok spot => exact hchange spot

theorem makeLink (target : String) :
    (v'.makeLink p target).map View.tree = (v.makeLink p target).map View.tree := by
  refine h.map_tree_bind hp .findLink fun spot => ?_
  rw [h]
  split
  · rfl
  · exact h.putAt _ _

theorem makeDirectory :
    (v'.makeDirectory p).map View.tree = (v.makeDirectory p).map View.tree := by
  refine h.map_tree_bind hp .findLink fun spot => ?_
  rw [h]
  cases v.tree.at? spot with
  | none => exact h.putAt _ _
  | some e => rfl

theorem unlink : (v'.unlink p).map View.tree = (v.unlink p).map View.tree := by
  refine h.map_tree_bind hp .findLink fun spot => ?_
  rw [h]
  split
  · rfl
  · rfl
  · exact h.removeAt _

theorem prune : (v'.prune p).map View.tree = (v.prune p).map View.tree := by
  refine h.map_tree_bind hp .findLink fun spot => ?_
  rw [h]
  cases v.tree.at? spot with
  | none => rfl
  | some e => exact congrArg (fun t => Except.ok (Tree.eraseAll t spot.address)) h

end Found

/-! ## Looking for executables -/

/-- The text of a path that starts at the top leads to the same entry. -/
theorem statText {text : String} (htop : startsAtTop text = true) :
    v'.statText text = v.statText text := by
  rw [View.statText, View.statText]
  simp only [htop, if_true]
  rw [h]

theorem isExecutable {text : String} (htop : startsAtTop text = true) :
    v'.isExecutable text = v.isExecutable text := by
  rw [View.isExecutable, View.isExecutable, h.statText htop]

end View.SameTree

section Executables

variable {v : View} {text : String}

theorem View.statText_eq_ok_iff {e : Entry} :
    v.statText text = .ok e ↔ ¬ maxPathBytes < text.utf8ByteSize ∧ ∃ spot,
      walk v.tree .find maxLinks (if startsAtTop text then ⟨[], 0⟩ else v.cwd) (stepsOf text) =
        .ok spot ∧ v.tree.at? spot = some e := by
  unfold View.statText
  by_cases hlong : maxPathBytes < text.utf8ByteSize
  · rw [if_pos hlong]
    refine iff_of_false (fun h => ?_) fun h => h.1 hlong
    cases h
  · rw [if_neg hlong]
    change (walk v.tree .find maxLinks _ _ >>= _) = _ ↔ _
    rw [bind_eq_ok_iff, and_iff_right hlong]
    refine exists_congr fun spot => and_congr_right fun _ => ?_
    cases v.tree.at? spot with
    | none => simp
    | some e' => simp

theorem View.isExecutable_iff :
    v.isExecutable text = true ↔ text ≠ "" ∧ text.toList.contains '\x00' = false ∧
      ∃ content, v.statText text = .ok (.file content true) := by
  unfold View.isExecutable
  by_cases hempty : text = ""
  · simp [hempty]
  by_cases hnul : text.toList.contains '\x00' = true
  · rw [if_pos (by simpa [hempty] using hnul)]
    exact iff_of_false Bool.false_ne_true fun h => absurd (hnul.symm.trans h.2.1) (by decide)
  rw [if_neg (by simpa [hempty] using hnul), and_iff_right hempty,
    and_iff_right (by simpa using hnul)]
  cases v.statText text with
  | error cause => simp
  | ok e =>
    cases e with
    | file content executable => simp
    | link | directory => simp

end Executables

/-- The search for a tool starts from the top wherever it looks. -/
def LooksFromTop (searchPath tool : String) : Prop :=
  if tool.toList.contains '/' then startsAtTop tool = true
  else searchPath = "" ∨ ∀ d ∈ searchPlaces searchPath, startsAtTop d = true

theorem startsAtTop_append {s : String} (h : startsAtTop s = true) (t : String) :
    startsAtTop (s ++ t) = true := by
  unfold startsAtTop at *
  rw [String.toList_append]
  cases hs : s.toList with
  | nil => simp [hs] at h
  | cons c cs => simpa [hs] using h

theorem startsAtTop_entryText {d : String} (h : startsAtTop d = true) (name : String) :
    startsAtTop (entryText d name) = true := by
  unfold entryText
  split
  · exact startsAtTop_append h name
  · rw [String.append_assoc]
    exact startsAtTop_append h _

/-- A search that starts from the top finds the same from everywhere. -/
theorem View.SameTree.findsExecutable {v v' : View} (h : v.SameTree v') {searchPath tool : String}
    (htop : LooksFromTop searchPath tool) :
    v'.findsExecutable searchPath tool = v.findsExecutable searchPath tool := by
  unfold LooksFromTop at htop
  unfold View.findsExecutable
  split at htop
  · rename_i hslash
    rw [if_pos hslash, if_pos hslash]
    exact h.isExecutable htop
  · rename_i hslash
    rw [if_neg hslash, if_neg hslash]
    by_cases hempty : searchPath = ""
    · rw [if_pos hempty, if_pos hempty]
    · rw [if_neg hempty, if_neg hempty, Bool.eq_iff_iff, List.any_eq_true, List.any_eq_true]
      have hd := htop.resolve_left hempty
      have hsame (d : String) (hmem : d ∈ searchPlaces searchPath) :
          v'.isExecutable (entryText d tool) = v.isExecutable (entryText d tool) :=
        h.isExecutable (startsAtTop_entryText (hd d hmem) tool)
      constructor
      · rintro ⟨d, hmem, hfound⟩
        exact ⟨d, hmem, (hsame d hmem).symm.trans hfound⟩
      · rintro ⟨d, hmem, hfound⟩
        exact ⟨d, hmem, (hsame d hmem).trans hfound⟩

/-! ## What other programs change -/

namespace Edit

open View

theorem respects_step {p : Path} {change : View → Except Cause View}
    (h : ∀ v v', SameTree v v' → (change v').map View.tree = (change v).map View.tree) :
    Respects SameTree (step p change) := fun v v' hv =>
  agree_step hv (matching_of_map_tree (h v v' hv))

theorem respects_needDirectory {p : Path} (hp : p.isAbsolute = true) :
    Respects SameTree (needDirectory p) := by
  refine (respects_step fun v v' h => h.makeDirectory hp).catching fun e => ?_
  apply respects_get_bind
  intro v v' hv
  rw [hv.stat hp]
  rcases v.stat .find p with _ | (_ | _ | _) <;> exact ⟨rfl, hv⟩

theorem respects_needDirectories (names : List String) :
    Respects SameTree (needDirectories names) := by
  induction names with
  | nil => exact respects_pure _
  | cons name above ih =>
    have hneed : Respects SameTree (needDirectory ⟨.slash, (name :: above).reverse⟩) :=
      respects_needDirectory rfl
    refine hneed.catching fun e => ?_
    by_cases he : e.cause ≠ .notFound
    · rw [if_pos he]
      exact (respects_throw e).bind fun _ => ih.bind fun _ => hneed
    · rw [if_neg he]
      exact ih.bind fun _ => hneed

theorem respects_put (names : List String) (e : Entry) : Respects SameTree (put names e) := by
  refine (respects_needDirectories _).bind fun _ => ?_
  cases e with
  | file content executable => exact respects_step fun v v' h => h.replace rfl content executable
  | link target => exact respects_step fun v v' h => h.makeLink rfl target
  | directory => exact respects_needDirectory rfl

theorem respects_remove (names : List String) : Respects SameTree (remove names) :=
  respects_step fun _ _ h => h.prune rfl

end Edit

end FileSystem

end HotPath
