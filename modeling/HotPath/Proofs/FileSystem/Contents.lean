import HotPath.Environment
import HotPath.Proofs.FileSystem.Resolving
import HotPath.Proofs.FileSystem.Walking

/-!
# The contents of files

Where a path leads does not depend on what the files hold. A tree can be filled with other contents
(`Tree.refill`); every walk then comes to the same place or fails for the same cause
(`walk_refill`), a path is resolved to the same path, and the work directory that is found is the
same (`findWorkDir_refill`).
-/

namespace HotPath

namespace FileSystem

/-- The entry with other content, if it is a file. -/
def Entry.refill (content : Bytes) : Entry → Entry
  | .file _ executable => .file content executable
  | .link target => .link target
  | .directory => .directory

variable (content : Address → Bytes)

namespace Tree

/-- The tree with other contents in its files. -/
def refill (t : Tree) : Tree :=
  ⟨t.entries.map fun e => (e.1, e.2.refill (content e.1)), by
    rw [List.map_map]
    exact t.nodup_addresses⟩

theorem get?_refill (t : Tree) (a : Address) :
    (t.refill content).get? a = (t.get? a).map (·.refill (content a)) := by
  by_cases ha : a = []
  · simp only [get?, ha, if_true]
    rfl
  · simp only [get?, ha, if_false, refill]
    induction t.entries with
    | nil => rfl
    | cons e entries ih =>
      rw [List.map_cons, List.lookup_cons, List.lookup_cons, ih]
      by_cases hb : a = e.1
      · subst hb
        simp
      · rw [beq_false_of_ne hb]

theorem directory_refill {t : Tree} {a : Address} (h : t.get? a = some .directory) :
    (t.refill content).get? a = some .directory := by
  rw [get?_refill, h]
  rfl

theorem Rooted.refill {t : Tree} (h : t.Rooted) : (t.refill content).Rooted := by
  intro entry hmem
  obtain ⟨old, hold, rfl⟩ := List.mem_map.mp hmem
  exact directory_refill content (h old hold)

theorem Named.refill {t : Tree} (h : t.Named) : (t.refill content).Named := by
  intro entry hmem
  obtain ⟨old, hold, rfl⟩ := List.mem_map.mp hmem
  exact h old hold

theorem at?_refill (t : Tree) (p : Place) :
    (t.refill content).at? p = (t.at? p).map (·.refill (content p.address)) := by
  unfold at?
  split
  · exact t.get?_refill content p.address
  · rfl

theorem linkCount_refill (t : Tree) : (t.refill content).linkCount = t.linkCount := by
  have hkind : ∀ e : Address × Entry, (e.2.refill (content e.1)).isLink = e.2.isLink := by
    rintro ⟨a, e⟩
    cases e <;> rfl
  simp only [linkCount, refill, List.filter_map, List.length_map, Function.comp_def, hkind]

end Tree

theorem Tree.at?_refill_directory {t : Tree} {p : Place} (h : t.at? p = some .directory) :
    (t.refill content).at? p = some .directory := by
  rw [Tree.at?_refill, h]
  rfl

/-- A walk comes to the same place, or fails for the same cause. -/
theorem walk_refill (t : Tree) (purpose : Purpose) (links : Nat) (here : Place)
    (steps : List String) :
    walk (t.refill content) purpose links here steps = walk t purpose links here steps := by
  fun_induction walk t purpose links here steps
  case case1 => rw [walk]
  case case2 hthere | case3 hthere | case4 hthere =>
    rw [walk, Tree.at?_refill, hthere]
    rfl
  case case5 hdir hstep ih =>
    rw [walk, Tree.at?_refill_directory content hdir]
    dsimp only
    rw [if_pos hstep, ih]
  case case6 hdir hstep ih =>
    rw [walk, Tree.at?_refill_directory content hdir]
    dsimp only
    rw [if_neg hstep, if_pos rfl, ih]
  case case7 hdir hstep hup hmake =>
    rw [walk, Tree.at?_refill_directory content hdir]
    dsimp only
    rw [if_neg hstep, if_neg hup, if_pos hmake]
  case case8 hdir hstep hup hmake hlost =>
    rw [walk, Tree.at?_refill_directory content hdir]
    dsimp only
    rw [if_neg hstep, if_neg hup, if_neg hmake, if_pos hlost]
  case case9 hdir hstep hup hmake hlost hlong =>
    rw [walk, Tree.at?_refill_directory content hdir]
    dsimp only
    rw [if_neg hstep, if_neg hup, if_neg hmake, if_neg hlost, if_pos hlong]
  -- From here on the step names an entry, and only the kind of the entry counts.
  case case10 hdir hname hup hlost hshort _ hnone hmake =>
    rw [walk_cons (Tree.at?_refill_directory content hdir) (namesEntry_of hname hup hlost hshort)
      (goesOn_of hmake), Tree.get?_refill, hnone]
    rfl
  case case11 hdir hname hup hmake hlost hshort _ hnone hrest =>
    rw [walk_cons (Tree.at?_refill_directory content hdir) (namesEntry_of hname hup hlost hshort)
      (goesOn_of hmake), Tree.get?_refill, hnone]
    exact if_neg hrest
  case case12 hdir hname hup hmake hlost hshort _ _ hlink hlast =>
    rw [walk_cons (Tree.at?_refill_directory content hdir) (namesEntry_of hname hup hlost hshort)
      (goesOn_of hmake), Tree.get?_refill, hlink]
    exact if_pos hlast
  case case13 hdir hname hup hmake hlost hshort _ _ hlink hlast =>
    rw [walk_cons (Tree.at?_refill_directory content hdir) (namesEntry_of hname hup hlost hshort)
      (goesOn_of hmake), Tree.get?_refill, hlink]
    exact if_neg hlast
  case case14 hdir hname hup hmake hlost hshort _ _ hlink hlast _ ih =>
    rw [walk_cons (Tree.at?_refill_directory content hdir) (namesEntry_of hname hup hlost hshort)
      (goesOn_of hmake), Tree.get?_refill, hlink]
    exact (if_neg hlast).trans ih
  case case15 hdir hname hup hmake hlost hshort _ _ _ hentry ih
      | case16 hdir hname hup hmake hlost hshort _ hentry ih =>
    rw [walk_cons (Tree.at?_refill_directory content hdir) (namesEntry_of hname hup hlost hshort)
      (goesOn_of hmake), Tree.get?_refill, hentry]
    exact ih

namespace View

/-- The same view of the tree with other contents in its files. -/
def refill (v : View) : View where
  tree := v.tree.refill content
  cwd := v.cwd
  rooted := v.rooted.refill content
  named := v.named.refill content
  inDirectory := Tree.directory_refill content v.inDirectory

variable (v : View)

theorem locate_refill (purpose : Purpose) (p : Path) :
    (v.refill content).locate purpose p = v.locate purpose p := by
  unfold locate
  split
  · rfl
  · exact walk_refill content v.tree purpose maxLinks (v.start p) p.names

theorem stat_eq_bind (purpose : Purpose) (p : Path) :
    v.stat purpose p = v.locate purpose p >>= fun spot =>
      (v.tree.at? spot).elim (.error .notFound) .ok := by
  refine bind_congr fun spot => ?_
  cases v.tree.at? spot <;> rfl

/-- What a path leads to is the same but for the content of a file. -/
theorem exists_stat_refill (purpose : Purpose) (p : Path) :
    ∃ new, (v.refill content).stat purpose p = (v.stat purpose p).map (Entry.refill new) := by
  rw [stat_eq_bind, stat_eq_bind, locate_refill]
  cases v.locate purpose p with
  | error cause => exact ⟨[], rfl⟩
  | ok spot =>
    refine ⟨content spot.address, ?_⟩
    have hthere : (v.refill content).tree.at? spot = _ := v.tree.at?_refill content spot
    change ((v.refill content).tree.at? spot).elim _ _ = _
    rw [hthere]
    change _ = Except.map _ ((v.tree.at? spot).elim _ _)
    cases v.tree.at? spot <;> rfl

theorem linkTarget?_refill (p : Path) : (v.refill content).linkTarget? p = v.linkTarget? p := by
  obtain ⟨new, hstat⟩ := v.exists_stat_refill content .findLink p
  rw [linkTarget?, linkTarget?, hstat]
  cases v.stat .findLink p with
  | error cause => rfl
  | ok e => cases e <;> rfl

theorem isDirectory_refill (p : Path) : (v.refill content).isDirectory p = v.isDirectory p := by
  obtain ⟨new, hstat⟩ := v.exists_stat_refill content .find p
  unfold isDirectory find
  rw [hstat]
  split
  · rfl
  · cases v.stat .find p with
    | error cause => cases cause <;> rfl
    | ok e => cases e <;> rfl

theorem settle_refill (full : Path) : (v.refill content).settle full = v.settle full := by
  obtain ⟨new, hstat⟩ := v.exists_stat_refill content .find ⟨full.root, collapse full.names⟩
  unfold settle
  dsimp only
  rw [hstat]
  split
  · rfl
  · cases v.stat .find ⟨full.root, collapse full.names⟩ with
    | error cause => cases cause <;> rfl
    | ok e => rfl

/-- The replacing of links at a name looks at the link it leads to and at nothing else. -/
theorem expand_name {v : View} {budget : Nat} {known : List (Path × Option Path)}
    {stack : List OpenLink} {here : Path} {name : String} {rest : List String}
    (hname : ¬ (name = "" || name = ".") = true) (hup : ¬ name = "..")
    (hnul : ¬ hasNul (here.child name) = true) :
    v.expand budget known stack here (name :: rest) =
      match v.linkTarget? (here.child name) with
      | none => v.expand budget known stack (here.child name) rest
      | some target =>
        match known.lookup (here.child name) with
        | some (some resolved) => v.expand budget known stack resolved rest
        | some none => .ok (stuckAt (here.child name) rest stack)
        | none =>
          match budget with
          | 0 => .ok (stuckAt (here.child name) rest stack)
          | budget + 1 =>
            v.expand budget ((here.child name, none) :: known) (⟨here.child name, rest⟩ :: stack)
              (if startsAtTop target then ⟨.slash, []⟩ else here) (piecesOf target) := by
  rw [expand, if_neg hname, if_neg hup]
  exact if_neg hnul

theorem expand_refill (budget : Nat) (known : List (Path × Option Path)) (stack : List OpenLink)
    (here : Path) (rest : List String) :
    (v.refill content).expand budget known stack here rest
      = v.expand budget known stack here rest := by
  fun_induction expand v budget known stack here rest
  case case1 => rw [expand]
  case case2 ih => rw [expand, ih]
  case case3 hname ih => rw [expand, if_pos hname, ih]
  case case4 hname ih => rw [expand, if_neg hname, if_pos rfl, ih]
  case case5 hname hup _ hnul =>
    rw [expand, if_neg hname, if_neg hup]
    exact if_pos hnul
  case case6 hname hup _ hnul hlink ih =>
    rw [expand_name hname hup hnul, linkTarget?_refill, hlink]
    exact ih
  case case7 hname hup _ hnul _ hlink resolved hknown ih =>
    rw [expand_name hname hup hnul, linkTarget?_refill, hlink]
    dsimp only
    rw [hknown]
    exact ih
  case case8 hname hup _ hnul _ hlink hknown =>
    rw [expand_name hname hup hnul, linkTarget?_refill, hlink]
    dsimp only
    rw [hknown]
  case case9 hname hup _ hnul _ hlink hknown =>
    rw [expand_name hname hup hnul, linkTarget?_refill, hlink]
    dsimp only
    rw [hknown]
  case case10 hname hup _ hnul _ hlink hknown _ ih =>
    rw [expand_name hname hup hnul, linkTarget?_refill, hlink]
    dsimp only
    rw [hknown]
    exact ih

theorem resolve_refill (p : Path) : (v.refill content).resolve p = v.resolve p := by
  have hlimit : (v.refill content).expandLimit = v.expandLimit := by
    rw [expandLimit, expandLimit, refill, Tree.linkCount_refill]
  have hcwd : (v.refill content).workingDirectory? = v.workingDirectory? := rfl
  simp only [resolve_eq_bind, hlimit, hcwd, expand_refill, settle_refill]

end View

end FileSystem

open FileSystem

/-- The work directory that is found does not depend on what the files hold. -/
theorem findWorkDir_refill (content : Address → Bytes) (v : View) (e : Environment)
    (asked : Option String) : findWorkDir (v.refill content) e asked = findWorkDir v e asked := by
  have hasked : askedPath (v.refill content) e asked = askedPath v e asked := rfl
  simp only [findWorkDir, hasked, View.resolve_refill, View.isDirectory_refill]

end HotPath
