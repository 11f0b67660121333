import HotPath.FileSystem.Edit
import HotPath.Proofs.FileSystem.DeadEnds
import HotPath.Proofs.TwoRuns

/-!
# Trees without links

In a tree without links a walk never leaves the names that it is given, so directories alone decide
where it comes to (`walk_names`). What another program does when it writes a file can then be said
in one step: nothing may be in the way of its directory (`Tree.Clear`), the missing directories are
made (`Tree.withWay`), and the file is put there.
-/

namespace HotPath.FileSystem

/-! ## Names of files -/

theorem IsFileName.namesEntry {name : String} (h : IsFileName name) (a : Address) :
    NamesEntry ⟨a, 0⟩ name :=
  ⟨h.ne_dot, h.ne_empty, h.ne_up, rfl, h.short⟩

namespace Tree

variable {t : Tree} {a b : Address} {e : Entry} {name : String} {names above : List String}

/-- No entry is a link. -/
def Linkless (t : Tree) : Prop := ∀ a target, t.get? a ≠ some (.link target)

/-- An entry stands in a directory, where its address is given in reverse. -/
theorem Rooted.directory_above (h : t.Rooted) (hentry : t.get? (name :: above).reverse = some e) :
    t.get? above.reverse = some .directory := by
  rw [List.reverse_cons] at hentry
  exact h.above hentry

theorem linkless_iff : t.Linkless ↔ ∀ entry ∈ t.entries, entry.1 ≠ [] → entry.2.isLink = false := by
  constructor
  · rintro h ⟨a, e⟩ hmem ha
    cases e with
    | link target => exact absurd ((t.mem_entries_iff ha).mp hmem) (h a target)
    | file | directory => rfl
  · intro h a target hlink
    by_cases ha : a = []
    · rw [ha] at hlink
      cases hlink
    · exact Bool.noConfusion (h _ ((t.mem_entries_iff ha).mpr hlink) ha)

instance (t : Tree) : Decidable t.Linkless := decidable_of_iff _ linkless_iff.symm

/-! ## Changing entries -/

theorem get?_insert (t : Tree) (ha : a ≠ []) (e : Entry) (b : Address) :
    (t.insert a e).get? b = if b = a then some e else t.get? b := by
  split
  · rename_i hb
    rw [hb, t.get?_insert_self e ha]
  · rename_i hb
    exact t.get?_insert_of_ne e hb

theorem replaceable_of_none (h : t.get? a = none) : Replaceable t a := by
  intro hdir
  rw [h] at hdir
  cases hdir

theorem replaceable_of_file {content : Bytes} {executable : Bool}
    (h : t.get? a = some (.file content executable)) : Replaceable t a := by
  intro hdir
  rw [h] at hdir
  cases hdir

theorem Linkless.insert (h : t.Linkless) (ha : a ≠ []) (he : e.isLink = false) :
    (t.insert a e).Linkless := by
  intro b target hlink
  rw [t.get?_insert ha] at hlink
  split at hlink
  · rw [Option.some.inj hlink] at he
    cases he
  · exact h b target hlink

theorem Linkless.erase (h : t.Linkless) (ha : a ≠ []) : (t.erase a).Linkless := by
  intro b target hlink
  by_cases hba : b = a
  · rw [hba, t.get?_erase_self ha] at hlink
    cases hlink
  · rw [t.get?_erase_of_ne hba] at hlink
    exact h b target hlink

/-! ## The way to an address -/

/-- There is a regular file at the address. -/
def isFileAt (t : Tree) (a : Address) : Bool :=
  match t.get? a with
  | some (.file _ _) => true
  | _ => false

/-- Why the directory at an address, which is given in reverse, cannot be made: there is a file, or
there is one above it. -/
def obstacle? (t : Tree) : List String → Option Cause
  | [] => none
  | name :: above =>
    match t.obstacle? above with
    | some _ => some .notADirectory
    | none => if t.isFileAt (name :: above).reverse then some .alreadyThere else none

/-- The tree with a directory at an address, which is given in reverse, and with the directories
above it, wherever nothing is there. -/
def withWay (t : Tree) : List String → Tree
  | [] => t
  | name :: above =>
    match t.get? (name :: above).reverse with
    | some _ => t.withWay above
    | none => (t.withWay above).insert (name :: above).reverse .directory

theorem reverse_cons_ne_nil (name : String) (above : List String) :
    (name :: above).reverse ≠ [] := by simp

theorem not_reverse_cons_above (name : String) (above : List String) :
    ¬ (name :: above).reverse <+: above.reverse := by
  intro h
  have := h.length_le
  simp at this

theorem obstacle?_of_directory (h : t.Rooted) (hdir : t.get? names.reverse = some .directory) :
    t.obstacle? names = none := by
  induction names with
  | nil => rfl
  | cons name above ih =>
    rw [obstacle?, ih (h.directory_above hdir), isFileAt, hdir]
    rfl

theorem obstacle?_eq_none_iff : t.obstacle? (name :: above) = none ↔
    t.obstacle? above = none ∧ t.isFileAt (name :: above).reverse = false := by
  rw [obstacle?]
  cases t.obstacle? above with
  | some cause => simp
  | none => simp

/-- What is no file is a directory, if it is there at all. -/
theorem Linkless.eq_directory (h : t.Linkless) (ha : t.isFileAt a = false)
    (hentry : t.get? a = some e) : e = .directory := by
  cases e with
  | file content executable =>
    rw [isFileAt, hentry] at ha
    cases ha
  | link target => exact absurd hentry (h a target)
  | directory => rfl

/-- What is in the way is a file at the address or above it. -/
theorem ne_notFound_of_obstacle? {cause : Cause} (h : t.obstacle? names = some cause) :
    cause ≠ .notFound := by
  cases names with
  | nil => cases h
  | cons name above =>
    rw [obstacle?] at h
    split at h
    · cases h
      decide
    · split at h
      · cases h
        decide
      · cases h

theorem get?_withWay (t : Tree) (names : List String) (b : Address) :
    (t.withWay names).get? b =
      if b <+: names.reverse then (t.get? b).or (some .directory) else t.get? b := by
  induction names with
  | nil =>
    rw [withWay, List.reverse_nil]
    split
    · rename_i hb
      rw [List.prefix_nil.mp hb]
      rfl
    · rfl
  | cons name above ih =>
    have hstart : b <+: (name :: above).reverse ↔
        b = (name :: above).reverse ∨ b <+: above.reverse := by
      rw [List.reverse_cons]
      exact List.prefix_concat_iff
    by_cases hb : b = (name :: above).reverse
    · subst hb
      rw [if_neg (not_reverse_cons_above name above)] at ih
      rw [if_pos List.prefix_rfl, withWay]
      cases hthere : t.get? (name :: above).reverse with
      | none => rw [Tree.get?_insert_self _ _ (reverse_cons_ne_nil name above)]; rfl
      | some e => rw [ih, hthere]; rfl
    · have hsame : (t.withWay (name :: above)).get? b = (t.withWay above).get? b := by
        rw [withWay]
        cases t.get? (name :: above).reverse with
        | none => exact Tree.get?_insert_of_ne _ _ hb
        | some e => rfl
      rw [hsame, ih]
      simp only [hstart, hb, false_or]

/-- The way to a directory changes nothing below it. -/
theorem get?_withWay_below (t : Tree) (name : String) (above : List String) :
    (t.withWay above).get? (name :: above).reverse = t.get? (name :: above).reverse := by
  rw [get?_withWay, if_neg (not_reverse_cons_above name above)]

theorem directory_withWay (hb : t.get? b = some .directory) (names : List String) :
    (t.withWay names).get? b = some .directory := by
  rw [get?_withWay, hb]
  exact ite_self _

/-- Where nothing is in the way, the way leads to a directory. -/
theorem directory_of_obstacle? (h : t.Linkless) (hfree : t.obstacle? names = none) :
    (t.withWay names).get? names.reverse = some .directory := by
  rw [get?_withWay, if_pos List.prefix_rfl]
  cases names with
  | nil => rfl
  | cons name above =>
    have hfile := (obstacle?_eq_none_iff.mp hfree).2
    cases hentry : t.get? (name :: above).reverse with
    | none => rfl
    | some e =>
      rw [h.eq_directory hfile hentry]
      rfl

theorem Linkless.withWay (h : t.Linkless) (names : List String) : (t.withWay names).Linkless := by
  intro b target hlink
  rw [get?_withWay] at hlink
  split at hlink
  · cases hentry : t.get? b with
    | none =>
      rw [hentry] at hlink
      cases hlink
    | some e =>
      rw [hentry] at hlink
      exact h b target (hentry.trans hlink)
  · exact h b target hlink

theorem Named.withWay (h : t.Named) (hnames : ∀ n ∈ names, IsFileName n) :
    (t.withWay names).Named := by
  induction names with
  | nil => exact h
  | cons name above ih =>
    have habove := ih fun n hn => hnames n (List.mem_cons_of_mem name hn)
    rw [Tree.withWay]
    split
    · exact habove
    · exact habove.insert (fun n hn => hnames n (List.mem_reverse.mp hn)) .directory

/-- Nothing is in the way of the directory at an address, which is given in reverse, and there can
be one with these names. -/
structure Clear (t : Tree) (names : List String) : Prop where
  linkless : t.Linkless
  named : ∀ n ∈ names, IsFileName n
  free : t.obstacle? names = none

theorem Clear.of_cons (h : t.Clear (name :: above)) : t.Clear above :=
  ⟨h.linkless, fun n hn => h.named n (List.mem_cons_of_mem name hn),
    (obstacle?_eq_none_iff.mp h.free).1⟩

theorem Clear.directory (h : t.Clear names) :
    (t.withWay names).get? names.reverse = some .directory :=
  directory_of_obstacle? h.linkless h.free

theorem Rooted.withWay (h : t.Rooted) (hclear : t.Clear names) : (t.withWay names).Rooted := by
  induction names with
  | nil => exact h
  | cons name above ih =>
    rw [Tree.withWay]
    cases hentry : t.get? (name :: above).reverse with
    | some e => exact ih hclear.of_cons
    | none =>
      refine (ih hclear.of_cons).insert ?_ ?_ .directory
      · rw [List.reverse_cons, List.dropLast_concat, hclear.of_cons.directory]
      · exact replaceable_of_none ((t.get?_withWay_below name above).trans hentry)

/-- Where the directory is there already, so are those above it. -/
theorem withWay_of_directory (h : t.Rooted) (hdir : t.get? names.reverse = some .directory) :
    t.withWay names = t := by
  induction names with
  | nil => rfl
  | cons name above ih =>
    rw [withWay, hdir]
    exact ih (h.directory_above hdir)

end Tree

/-! ## Walks -/

section Walks

variable {t : Tree} {purpose : Purpose} {links : Nat} {here : Place} {step name : String}
  {above : List String}

/-- One more name leads to the entry of that name, for every purpose. -/
theorem walk_name (ht : t.Linkless) (hdir : t.at? here = some .directory)
    (hstep : NamesEntry here step) :
    walk t purpose links here [step] = .ok ⟨here.address ++ [step], 0⟩ := by
  rw [walk_cons hdir hstep (by simp [GoesOn])]
  cases hentry : t.get? (here.address ++ [step]) with
  | none => rfl
  | some e =>
    cases e with
    | link target => exact absurd hentry (ht _ target)
    | file | directory => rw [walk]

/-- A walk along some steps and one more. -/
theorem walk_concat (ht : t.Linkless) (hstep : purpose = .make → step ≠ "")
    (front : List String) :
    walk t purpose links here (front ++ [step]) =
      (walk t .find links here front).bind fun mid => walk t purpose links mid [step] := by
  induction front generalizing here with
  | nil =>
    rw [walk.eq_def t .find]
    rfl
  | cons first rest ih =>
    have hlast : ¬ (purpose = .make && rest ++ [step] = [""]) = true := by
      cases rest <;> simp_all
    have hfind : ¬ (Purpose.find = .make && rest = [""]) = true := by simp
    rw [List.cons_append, walk.eq_def t purpose links here (first :: (rest ++ [step])),
      walk.eq_def t .find links here (first :: rest)]
    dsimp only
    cases t.at? here with
    | none => rfl
    | some e =>
      cases e with
      | file | link => rfl
      | directory =>
        dsimp only
        by_cases hstay : (first = "." || first = "") = true
        · rw [if_pos hstay, if_pos hstay, ih]
        rw [if_neg hstay, if_neg hstay]
        by_cases hup : first = ".."
        · rw [if_pos hup, if_pos hup, ih]
        rw [if_neg hup, if_neg hup, if_neg hlast, if_neg hfind]
        by_cases hlost : here.lost ≠ 0
        · rw [if_pos hlost, if_pos hlost]
          rfl
        rw [if_neg hlost, if_neg hlost]
        by_cases hlong : maxNameBytes < first.utf8ByteSize
        · rw [if_pos hlong, if_pos hlong]
          rfl
        rw [if_neg hlong, if_neg hlong]
        cases hentry : t.get? (here.address ++ [first]) with
        | none =>
          dsimp only
          rw [if_neg (by simp)]
          by_cases hrest : rest = []
          · rw [if_pos hrest]
            change _ = walk t purpose links ⟨here.address ++ [first], 0⟩ [step]
            rw [walk, show t.at? ⟨here.address ++ [first], 0⟩ = none from hentry]
          · rw [if_neg hrest]
            rfl
        | some e =>
          cases e with
          | link target => exact absurd hentry (ht _ target)
          | file | directory => exact ih

/-- Along names from the top a walk comes to the entry of the last name if the others lead to a
directory. -/
theorem walk_names (hrooted : t.Rooted) (ht : t.Linkless)
    (hnames : ∀ n ∈ name :: above, IsFileName n) :
    walk t purpose links ⟨[], 0⟩ (name :: above).reverse =
      if t.get? above.reverse = some .directory then .ok ⟨(name :: above).reverse, 0⟩
      else .error (if (t.obstacle? above).isSome then .notADirectory else .notFound) := by
  have hname := hnames name List.mem_cons_self
  rw [List.reverse_cons]
  induction above generalizing name purpose with
  | nil =>
    rw [List.reverse_nil, List.nil_append, if_pos (show t.get? [] = some .directory from rfl)]
    exact walk_name ht rfl (hname.namesEntry [])
  | cons up rest ih =>
    have hup := hnames up (by simp)
    rw [walk_concat ht fun _ => hname.ne_empty, List.reverse_cons,
      ih (fun n hn => hnames n (List.mem_cons_of_mem name hn)) hup]
    by_cases hdir : t.get? rest.reverse = some .directory
    · rw [if_pos hdir]
      change walk t purpose links ⟨rest.reverse ++ [up], 0⟩ [name] = _
      have hfree := Tree.obstacle?_of_directory hrooted hdir
      rw [Tree.obstacle?, hfree, List.reverse_cons, Tree.isFileAt]
      have hthere : t.at? ⟨rest.reverse ++ [up], 0⟩ = t.get? (rest.reverse ++ [up]) := rfl
      cases hentry : t.get? (rest.reverse ++ [up]) with
      | none =>
        rw [walk, hthere, hentry]
        rfl
      | some e =>
        cases e with
        | link target => exact absurd hentry (ht _ target)
        | file content executable =>
          rw [walk, hthere, hentry]
          rfl
        | directory =>
          rw [if_pos rfl]
          exact walk_name ht (hthere.trans hentry) (hname.namesEntry _)
    · have hnone : t.get? (rest.reverse ++ [up]) = none := by
        rw [Option.eq_none_iff_forall_ne_some]
        intro e hentry
        exact hdir (hrooted.above hentry)
      have hother := Tree.replaceable_of_none hnone
      rw [if_neg hdir, Tree.obstacle?, List.reverse_cons, Tree.isFileAt, if_neg hother, hnone]
      cases t.obstacle? rest <;> rfl

end Walks

/-! ## The entries of a directory -/

/-- Where a name leads from the directory at `w`, to which the path `p` leads. -/
def spotIn (p : Path) (w : Address) (name : String) : Except Cause Address :=
  if maxPathBytes < (p.child name).text.utf8ByteSize then .error .nameTooLong
  else if name = "." ∨ name = "" then .ok w
  else if name = ".." then .ok w.dropLast
  else if maxNameBytes < name.utf8ByteSize then .error .nameTooLong
  else .ok (w ++ [name])

namespace View

variable {v v' : View} {p : Path} {w a : Address} {name : String}

/-- The path leads to the directory at `w`, and there are no links. -/
structure ComesTo (v : View) (p : Path) (w : Address) : Prop where
  linkless : v.tree.Linkless
  located : v.locate .find p = .ok ⟨w, 0⟩
  directory : v.tree.get? w = some .directory

theorem ComesTo.stat (h : v.ComesTo p w) : v.stat .find p = .ok .directory :=
  stat_eq_ok_iff.mpr ⟨⟨w, 0⟩, h.located, h.directory⟩

theorem ComesTo.isLink_of_mem (h : v.ComesTo p w) {e : Entry}
    (hmember : (name, e) ∈ v.tree.members a) : e.isLink = false := by
  cases e with
  | link target => exact absurd (v.tree.mem_members_iff.mp hmember) (h.linkless _ target)
  | file | directory => rfl

/-- A path to a directory leads there as long as no directory is taken away. -/
theorem ComesTo.of_directories (h : v.ComesTo p w) (hcwd : v'.cwd = v.cwd)
    (hlinkless : v'.tree.Linkless)
    (hdirectories : ∀ a, v.tree.get? a = some .directory → v'.tree.get? a = some .directory) :
    v'.ComesTo p w := by
  obtain ⟨hshort, hwalks⟩ := locate_eq_ok_iff.mp h.located
  have hoff : v.tree.SameOffEnds v'.tree := by
    intro a ha
    by_cases hdir : v.tree.get? a = some .directory
    · rw [hdirectories a hdir, hdir]
    · exact absurd (deadEnd_of_not_link hdir (h.linkless a)) ha
  obtain ⟨mid, hmid, hend⟩ := hwalks.exists_findLink
  obtain rfl : mid = ⟨w, 0⟩ := by
    rcases hend with hend | ⟨target, -, hlink, -⟩
    · exact hend
    · obtain ⟨address, lost⟩ := mid
      unfold Tree.at? at hlink
      split at hlink
      · exact absurd hlink (h.linkless _ target)
      · cases hlink
  have hwalks' : Walks v'.tree .find maxLinks (v'.start p) p.names ⟨w, 0⟩ := by
    rw [start, hcwd]
    exact (hmid.of_offEnds hoff).find_of_findLink fun target => hlinkless w target
  exact ⟨hlinkless, locate_eq_ok_iff.mpr ⟨hshort, hwalks'⟩, hdirectories w h.directory⟩

/-- Where the entries of the directory are found does not depend on which of them are there. -/
theorem ComesTo.locate_child (h : v.ComesTo p w) (purpose : Purpose)
    (hname : purpose = .make → name ≠ "") :
    v.locate purpose (p.child name) = (spotIn p w name).map fun a => ⟨a, 0⟩ := by
  obtain ⟨-, hwalks⟩ := locate_eq_ok_iff.mp h.located
  have hdir : v.tree.at? ⟨w, 0⟩ = some .directory := h.directory
  rw [locate, spotIn]
  by_cases hlong : maxPathBytes < (p.child name).text.utf8ByteSize
  · rw [if_pos hlong, if_pos hlong]
    rfl
  rw [if_neg hlong, if_neg hlong]
  change walk v.tree purpose maxLinks (v.start p) (p.names ++ [name]) = _
  rw [walk_concat h.linkless hname, walk_of_walks hwalks]
  change walk v.tree purpose maxLinks ⟨w, 0⟩ [name] = _
  by_cases hstay : name = "." ∨ name = ""
  · rw [if_pos hstay, walk_of_walks (.stay hdir hstay .done)]
    rfl
  rw [if_neg hstay]
  by_cases hup : name = ".."
  · rw [if_pos hup, hup, walk_of_walks (.up hdir .done)]
    rfl
  rw [if_neg hup]
  by_cases hlength : maxNameBytes < name.utf8ByteSize
  · rw [if_pos hlength, walk, hdir]
    dsimp only
    rw [if_neg (by simpa using hstay), if_neg hup, if_neg (by simp), if_neg (by simp),
      if_pos hlength]
    rfl
  rw [if_neg hlength]
  obtain ⟨hdot, hempty⟩ := not_or.mp hstay
  exact walk_name h.linkless hdir ⟨hdot, hempty, hup, rfl, not_lt.mp hlength⟩

/-- A name leads to the entry of that name, if not to a directory around it. -/
theorem ComesTo.spotIn_eq_ok (h : v.ComesTo p w) (hspot : spotIn p w name = .ok a) :
    a = w ++ [name] ∨ v.tree.get? a = some .directory := by
  unfold spotIn at hspot
  split at hspot
  · cases hspot
  split at hspot
  · cases hspot
    exact .inr h.directory
  split at hspot
  · cases hspot
    exact .inr (v.rooted.dropLast h.directory)
  split at hspot
  · cases hspot
  · cases hspot
    exact .inl rfl

theorem ComesTo.unlink_child (h : v.ComesTo p w) (name : String) :
    v.unlink (p.child name) = (spotIn p w name).bind fun a =>
      match v.tree.get? a with
      | none => .error .notFound
      | some .directory => .error .isADirectory
      | some _ => v.removeAt a := by
  rw [unlink, h.locate_child .findLink (by simp)]
  cases spotIn p w name <;> rfl

theorem ComesTo.write_child (h : v.ComesTo p w) (hname : name ≠ "") (content : Bytes) :
    v.write (p.child name) content = (spotIn p w name).bind fun a =>
      match v.tree.get? a with
      | some .directory => .error .isADirectory
      | some (.file _ executable) => v.putAt a (.file content executable)
      | some (.link _) | none => v.putAt a (.file content false) := by
  rw [write, fileSpot, h.locate_child .make fun _ => hname]
  cases spotIn p w name with
  | error cause => rfl
  | ok a =>
    have hthere : v.tree.at? ⟨a, 0⟩ = v.tree.get? a := rfl
    dsimp only [Except.map, Except.bind, bind]
    rw [hthere]
    rcases v.tree.get? a with _ | (_ | _ | _) <;> rfl

end View

end HotPath.FileSystem
