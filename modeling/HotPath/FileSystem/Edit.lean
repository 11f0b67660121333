import HotPath.FileSystem.Walk

/-!
# Changing files

Writing a file, deleting a file, and the free changes that other programs make.

* `View.write`: makes or overwrites the file that a path leads to, links followed.
* `View.unlink`: deletes the entry that a path names, links not followed.
* `Edit.put`, `Edit.remove`: what another program may do. Where such an edit fails, the steps before
  the failure stay done.
-/

namespace HotPath.FileSystem

namespace View

/-- The view with an entry put where one can be. -/
def insert (v : View) (a : Address) (e : Entry) (h : Free v.tree a) : View where
  tree := v.tree.insert a e
  cwd := v.cwd
  rooted := v.rooted.insert h.above h.replaceable e
  named := v.named.insert h.named e
  inDirectory := Tree.directory_insert h.replaceable e v.inDirectory

/-- The view without an entry that is no directory. -/
def erase (v : View) (a : Address) (h : Replaceable v.tree a) : View where
  tree := v.tree.erase a
  cwd := v.cwd
  rooted := v.rooted.erase h
  named := v.named.restrict _
  inDirectory := Tree.directory_erase h v.inDirectory

theorem directory_afterRemoval (v : View) (a : Address) :
    (v.tree.eraseAll a).get? (v.cwd.afterRemoval a).address = some .directory := by
  unfold Place.afterRemoval
  split
  · rename_i hbelow
    obtain ⟨names, hnames⟩ := List.isPrefixOf_iff_prefix.mp hbelow
    by_cases ha : a = []
    · rw [ha]
      rfl
    have hthere : v.tree.get? a = some .directory := by
      have hcwd := v.inDirectory
      rw [← hnames] at hcwd
      by_cases hnil : names = []
      · rwa [hnil, List.append_nil] at hcwd
      · exact v.rooted.directory hnil hcwd
    rw [Tree.get?_eraseAll]
    · exact v.rooted.dropLast hthere
    · intro hup
      have hle := hup.length_le
      have hpos := List.length_pos_iff.mpr ha
      rw [List.length_dropLast] at hle
      omega
  · rename_i hbelow
    rw [Tree.get?_eraseAll _ fun h => hbelow (List.isPrefixOf_iff_prefix.mpr h), v.inDirectory]

/-- The view without the entry at an address and without everything below it. A program that works
there stays in a directory that is no longer in the tree. -/
def eraseAll (v : View) (a : Address) : View where
  tree := v.tree.eraseAll a
  cwd := v.cwd.afterRemoval a
  rooted := v.rooted.eraseAll a
  named := v.named.restrict _
  inDirectory := v.directory_afterRemoval a

/-- Puts an entry at an address, if one can be there. -/
def putAt (v : View) (a : Address) (e : Entry) : Except Cause View :=
  if h : Free v.tree a then .ok (v.insert a e h) else .error .notFound

/-- Takes the entry at an address away, unless it is a directory. -/
def removeAt (v : View) (a : Address) : Except Cause View :=
  if h : Replaceable v.tree a then .ok (v.erase a h) else .error .isADirectory

/-- The view from a working directory of a tree with some entries, which are put in order; what has
no place by then is left out. -/
def ofEntries (entries : List (Address × Entry)) (cwd : Address) : View :=
  (entries.foldl (fun v e => (putAt v e.1 e.2).toOption.getD v) empty).workingAt ⟨cwd, 0⟩

/-- Where the file that a path leads to is or would be made, and whether it may be executed. -/
def fileSpot (v : View) (p : Path) : Except Cause (Address × Bool) := do
  let spot ← v.locate .make p
  match v.tree.at? spot with
  | some .directory => .error .isADirectory
  | some (.file _ executable) => .ok (spot.address, executable)
  | some (.link _) | none => .ok (spot.address, false)

/-- Makes or overwrites the file that a path leads to; a file that may be executed stays so. -/
def write (v : View) (p : Path) (content : Bytes) : Except Cause View := do
  let (a, executable) ← v.fileSpot p
  v.putAt a (.file content executable)

/-- Makes or overwrites the file that a path leads to, and settles whether it may be executed. -/
def replace (v : View) (p : Path) (content : Bytes) (executable : Bool) : Except Cause View := do
  let (a, _) ← v.fileSpot p
  v.putAt a (.file content executable)

/-- Makes a link in the place of the entry that a path names; a directory stays. -/
def makeLink (v : View) (p : Path) (target : String) : Except Cause View := do
  let spot ← v.locate .findLink p
  match v.tree.at? spot with
  | some .directory => .error .isADirectory
  | _ => v.putAt spot.address (.link target)

/-- Makes the directory that a path names; nothing may be there yet. -/
def makeDirectory (v : View) (p : Path) : Except Cause View := do
  let spot ← v.locate .findLink p
  match v.tree.at? spot with
  | some _ => .error .alreadyThere
  | none => v.putAt spot.address .directory

/-- Deletes the entry that a path names; a directory stays. -/
def unlink (v : View) (p : Path) : Except Cause View := do
  let spot ← v.locate .findLink p
  match v.tree.at? spot with
  | none => .error .notFound
  | some .directory => .error .isADirectory
  | some _ => v.removeAt spot.address

/-- Deletes the entry that a path names, with everything below it. -/
def prune (v : View) (p : Path) : Except Cause View := do
  let spot ← v.locate .findLink p
  match v.tree.at? spot with
  | none => .error .notFound
  | some _ => .ok (v.eraseAll spot.address)

end View

/-- A change to the files in several steps. Where it fails, the steps before the failure stay
done. -/
abbrev Edit (α : Type) := ExceptT FileError (StateM View) α

namespace Edit

def step (p : Path) (change : View → Except Cause View) : Edit Unit := do
  match change (← get) with
  | .ok v => set v
  | .error cause => throw ⟨cause, p.text⟩

/-- Makes the directory that a path names, unless the path leads to one already. -/
def needDirectory (p : Path) : Edit Unit :=
  tryCatch (step p (·.makeDirectory p)) fun e => do
    match (← get).stat .find p with
    | .ok .directory => pure ()
    | _ => throw e

/-- Makes the directory at the names from the top, which are given in reverse, and the directories
above it that are missing. -/
def needDirectories : List String → Edit Unit
  | [] => pure ()
  | name :: above =>
    let p : Path := ⟨.slash, (name :: above).reverse⟩
    tryCatch (needDirectory p) fun e => do
      if e.cause ≠ .notFound then throw e
      needDirectories above
      needDirectory p

/-- Puts an entry at the names from the top. Missing directories above it are made; a file is
written through a link, a link replaces a file or a link. -/
def put (names : List String) (e : Entry) : Edit Unit := do
  let p : Path := ⟨.slash, names⟩
  needDirectories names.dropLast.reverse
  match e with
  | .file content executable => step p (·.replace p content executable)
  | .link target => step p (·.makeLink p target)
  | .directory => needDirectory p

/-- Removes the entry at the names from the top, with everything below it. -/
def remove (names : List String) : Edit Unit :=
  let p : Path := ⟨.slash, names⟩
  step p (·.prune p)

end Edit

end HotPath.FileSystem
