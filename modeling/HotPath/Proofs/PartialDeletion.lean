import HotPath.Proofs.Discarding
import HotPath.Proofs.FileSystem.Rooted

/-!
# After some of the outputs have been deleted

Deleting outputs takes away the entries that they name, and no more (`View.without`). Of the outputs
that are left, those are outputs still that are regular files still (`isOutput_iff_of_losesNamed`):
no directory on the way to them has been lost. A link to a deleted file is still there, but leads to
no file any more. So deleting what is found later comes to the same as deleting everything at once
exactly if there is no such link among the outputs that are left (`View.without_stillFiles_iff`).

* `View.afterDiscards_without`: what is deleted when nothing is refused.
* `View.exists_of_afterDiscards_error`: what is deleted in front of the first refusal.
* `View.isFile_of_same_named`: whether a path is a file still depends on the entry that it names.
-/

namespace HotPath

open FileSystem Glob

/-! ## Searches after a loss -/

namespace FileSystem.View

variable {v after : View} {lost : List Path} {p q : Path} {e : Entry}

/-- A directory stays one for what is found below it. -/
theorem isDirectory_of_found {back : List String} (hwithin : after.Within v)
    (hdirectory : v.isDirectory p = .ok true)
    (hfound : after.find ⟨p.root, p.names ++ back⟩ = .ok (some e)) :
    after.isDirectory p = .ok true := by
  obtain ⟨e', hthere, -⟩ := exists_find_of_append hfound
  obtain ⟨e'', hbefore, hshape⟩ := hwithin.find hthere
  rw [isDirectory_iff.mp hdirectory] at hbefore
  cases hbefore
  rw [isDirectory_iff, hthere, Entry.eq_directory_of_shape hshape.symm]

/-- Only entries with names that a walk can name are lost. -/
theorem LosesNamed.namesEntry (h : v.LosesNamed lost after) {a : Address}
    {name : String} (hgone : after.tree.get? (a ++ [name]) ≠ v.tree.get? (a ++ [name])) :
    NamesEntry ⟨a, 0⟩ name := by
  by_contra hname
  refine hgone (h.kept _ fun p hp hlocate => ?_)
  have hdead := deadEnd_of_isFile (h.lost p hp).1 hlocate
  obtain ⟨-, hwalks⟩ := locate_eq_ok_iff.mp hlocate
  rcases hwalks.named v.rooted (v.start_inDirectory p) with hdirectory | ⟨b, last, heq, hlast⟩
  · exact hdead.replaceable hdirectory
  · obtain ⟨rfl, hlast'⟩ := List.append_inj' (congrArg Place.address heq) rfl
    obtain rfl := List.singleton_inj.mp hlast'
    exact hname hlast

/-- An entry by which a path leads to something is not lost. -/
theorem LosesNamed.entry_of_found (h : v.LosesNamed lost after) {a : Address}
    {name : String} {back : List String} {entry : Entry} (hlocate : v.locate .find p = .ok ⟨a, 0⟩)
    (hentry : v.tree.get? (a ++ [name]) = some entry)
    (hfound : after.find ⟨p.root, p.names ++ name :: back⟩ = .ok (some e)) :
    after.locate .find p = .ok ⟨a, 0⟩ ∧ after.tree.get? (a ++ [name]) = some entry := by
  obtain ⟨spot, hspot, hthere⟩ := stat_eq_ok_iff.mp (find_eq_some_iff.mp hfound).2
  obtain ⟨hshort, hwalks⟩ := locate_eq_ok_iff.mp hspot
  obtain ⟨mid, links, hmid, hend⟩ := hwalks.cut (List.cons_ne_nil name back)
  have hdirectory := hend.directory (List.cons_ne_nil name back)
  have hlocate' : after.locate .find p = .ok mid :=
    locate_eq_ok_iff.mpr ⟨text_short_of_append hshort, hmid⟩
  have hends := h.losesEnds
  obtain rfl : mid = ⟨a, 0⟩ :=
    Except.ok.inj ((hends.within.locate hlocate' hdirectory).symm.trans hlocate)
  refine ⟨hlocate', ?_⟩
  rcases hends.tree (a ++ [name]) with hsame | ⟨hgone, -⟩
  · rw [hsame, hentry]
  · have hlost : after.tree.get? (a ++ [name]) ≠ v.tree.get? (a ++ [name]) := by
      rw [hgone, hentry]
      exact nofun
    have hname := h.namesEntry hlost
    obtain ⟨entry', hentry'⟩ := hend.exists_entry hname hthere
    rw [hgone] at hentry'
    cases hentry'

end FileSystem.View

namespace Glob

variable {v after : View} {lost : List Path} {directories : Bool} {steps : List Step} {p q : Path}

/-- Where a pattern leads, it leads as long as something is there. -/
theorem Leads.of_losesNamed (hlost : v.LosesNamed lost after)
    (h : Leads v directories steps p q) {e : Entry} (hq : after.find q = .ok (some e)) :
    Leads after directories steps p q := by
  have hwithin := hlost.losesEnds.within
  induction h with
  | here => exact .here
  | @exactly name rest p q hthere hlead ih =>
    obtain ⟨back, rfl⟩ := hlead.exists_append
    refine .exactly ?_ (ih hq)
    split at hthere
    · rename_i hends
      rw [if_pos hends]
      obtain ⟨e', hfound, -⟩ := View.exists_find_of_append hq
      exact View.isPresent_iff.mpr ⟨e', hfound⟩
    · rename_i hends
      rw [if_neg hends]
      exact View.isDirectory_of_found hwithin hthere hq
  | @covering pieces rest p q name entry members hlist hmember hcovers hon hlead ih =>
    obtain ⟨back, rfl⟩ := hlead.exists_append
    obtain ⟨a, hlocate, hentry⟩ := View.exists_of_mem_list hlist hmember
    have hfound : after.find ⟨p.root, p.names ++ name :: back⟩ = .ok (some e) := by
      rw [← hq, Path.child, List.append_assoc, List.singleton_append]
    obtain ⟨hlocate', hentry'⟩ := hlost.entry_of_found hlocate hentry hfound
    refine .covering (View.list_of_locate hlocate') (after.tree.mem_members_iff.mpr hentry')
      hcovers (fun hends => ?_) (ih hq)
    have hon := hon hends
    cases entry with
    | directory => rfl
    | file => cases hon
    | link target =>
      have hdirectory := mapError_eq_ok_iff.mp hon
      exact mapError_eq_ok_iff.mpr (View.isDirectory_of_found hwithin hdirectory hq)
  | @descend rest p q names hnames hlead ih =>
    refine .descend (hnames.imp_right fun hbelow => ?_) (ih hq)
    obtain ⟨a, hlocate, hne, hentry⟩ := View.mem_directoriesBelow_iff.mp hbelow
    obtain ⟨back, rfl⟩ := hlead.exists_append
    dsimp only at hq
    rw [List.append_assoc] at hq
    obtain ⟨spot, hspot, hthere⟩ := View.exists_locate_of_append (by simp [hne]) hq
    obtain rfl : spot = ⟨a, 0⟩ := Except.ok.inj ((hwithin.locate hspot hthere).symm.trans hlocate)
    have hkept := hlost.losesEnds.tree.sameOffEnds _ (not_deadEnd_of_directory hentry)
    exact View.mem_directoriesBelow_iff.mpr ⟨a, hspot, hne, hkept.trans hentry⟩

end Glob

variable {v after : View} {lost files : List Path} {workDir p : Path} {pattern : PathPattern}

/-- An output that is still a regular file is still an output. -/
theorem isOutput_iff_of_losesNamed (hlost : v.LosesNamed lost after) :
    IsOutput after workDir pattern p ↔
      IsOutput v workDir pattern p ∧ after.isFile p = .ok true := by
  have hwithin := hlost.losesEnds.within
  constructor
  · intro h
    exact ⟨h.of_within hwithin, h.2.2⟩
  · rintro ⟨⟨hdirectory, hlead, -⟩, hfile⟩
    obtain ⟨content, executable, hfind⟩ := View.isFile_iff.mp hfile
    refine ⟨?_, hlead.of_losesNamed hlost hfind, hfile⟩
    obtain ⟨back, rfl⟩ := hlead.exists_append
    exact View.isDirectory_of_found hwithin hdirectory hfind

/-! ## What has been deleted -/

namespace FileSystem

theorem Tree.restrict_congr (t : Tree) {keep keep' : Address → Bool}
    (h : ∀ a, t.get? a ≠ none → keep a = keep' a) : t.restrict keep = t.restrict keep' := by
  have hentries : ∀ entry ∈ t.entries, keep entry.1 = keep' entry.1 := by
    rintro ⟨a, e⟩ hmem
    apply h
    by_cases ha : a = []
    · rw [ha]
      exact nofun
    · rw [(t.mem_entries_iff ha).mp hmem]
      exact nofun
  unfold restrict
  congr 1
  exact List.filter_congr hentries

theorem Tree.erase_restrict (t : Tree) (keep : Address → Bool) (a : Address) :
    (t.restrict keep).erase a = t.restrict fun b => keep b && decide (b ≠ a) := by
  simp only [erase, restrict, List.filter_filter, Bool.and_comm]

namespace View

variable {files : List Path} {a : Address} {refused : Path → Bool}

/-- There is a directory at this address, or none of the paths names what is there. -/
def spares (v : View) (files : List Path) (a : Address) : Bool :=
  decide (v.tree.get? a = some .directory ∨ ∀ p ∈ files, v.locate .findLink p ≠ .ok ⟨a, 0⟩)

theorem spares_iff : v.spares files a = true ↔
    v.tree.get? a = some .directory ∨ ∀ p ∈ files, v.locate .findLink p ≠ .ok ⟨a, 0⟩ :=
  decide_eq_true_iff

/-- The view without the entries that some paths name; a directory stays. -/
def without (v : View) (files : List Path) : View where
  tree := v.tree.restrict (v.spares files)
  cwd := v.cwd
  rooted := v.rooted.restrict fun entry hmem _ => spares_iff.mpr (.inl (v.rooted entry hmem))
  named := v.named.restrict _
  inDirectory := by
    rw [Tree.get?_restrict_of_keep _ (spares_iff.mpr (.inl v.inDirectory)), v.inDirectory]

theorem spares_append_singleton (hp : v.locate .findLink p = .ok ⟨a, 0⟩)
    (ha : Replaceable v.tree a) (b : Address) :
    v.spares (files ++ [p]) b = (v.spares files b && decide (b ≠ a)) := by
  have hother : v.tree.get? b = some .directory → b ≠ a := by
    rintro hb rfl
    exact ha hb
  rw [Bool.eq_iff_iff, Bool.and_eq_true, spares_iff, spares_iff, decide_eq_true_iff,
    List.forall_mem_append, List.forall_mem_singleton, hp, or_and_right, and_iff_left_of_imp hother]
  simp [eq_comm]

theorem without_nil (v : View) : v.without [] = v := by
  have hall : v.spares [] = fun _ => true := funext fun a => spares_iff.mpr (.inr nofun)
  refine View.ext ?_ rfl
  change v.tree.restrict (v.spares []) = v.tree
  rw [hall, Tree.restrict]
  simp only [List.filter_true]

theorem without_congr {files' : List Path} (h : ∀ p, p ∈ files ↔ p ∈ files') :
    v.without files = v.without files' := by
  have hspares : v.spares files = v.spares files' := by
    funext a
    rw [Bool.eq_iff_iff, spares_iff, spares_iff]
    simp only [h]
  exact View.ext (congrArg v.tree.restrict hspares) rfl

theorem get?_without (ha : a ≠ []) :
    (v.without files).tree.get? a = if v.spares files a then v.tree.get? a else none :=
  v.tree.get?_restrict _ ha

theorem get?_without_eq_none_iff (ha : v.tree.get? a = some e) (he : e ≠ .directory) :
    (v.without files).tree.get? a = none ↔ ∃ p ∈ files, v.locate .findLink p = .ok ⟨a, 0⟩ := by
  have hne : a ≠ [] := by
    rintro rfl
    exact he (Option.some.inj ha).symm
  rw [get?_without hne, ha, ite_eq_right_iff, spares_iff, ha]
  simp [he]

theorem losesNamed_without (h : ∀ p ∈ files, v.isFile p = .ok true) :
    v.LosesNamed files (v.without files) := by
  refine ⟨rfl, fun p hp => ?_, fun a ha => ?_⟩
  · obtain ⟨a, e, hlocate, hentry, hdirectory⟩ := exists_named_of_isFile (h p hp)
    have hne : a ≠ [] := (deadEnd_of_isFile (h p hp) hlocate).replaceable.ne_nil
    have hgone : (v.without files).tree.get? a = none :=
      (get?_without_eq_none_iff hentry hdirectory).mpr ⟨p, hp, hlocate⟩
    exact ⟨h p hp, a, e, hlocate, hentry, hdirectory, hgone⟩
  · exact v.tree.get?_restrict_of_keep (spares_iff.mpr (.inr ha))

theorem afterDiscard_without (hlost : ∀ p ∈ lost, v.isFile p = .ok true)
    (hp : v.isFile p = .ok true) (hrefused : ¬ refused p) :
    (v.without lost).afterDiscard refused p = .ok (v.without (lost ++ [p])) := by
  obtain ⟨a, e, hlocate, hentry, hdirectory⟩ := exists_named_of_isFile hp
  have hends := (losesNamed_without hlost).losesEnds
  have hlocate' := hends.locate_findLink hlocate
  have hspares (b : Address) : v.spares (lost ++ [p]) b = (v.spares lost b && decide (b ≠ a)) :=
    spares_append_singleton hlocate (deadEnd_of_isFile hp hlocate).replaceable b
  have hrefused' : ¬ refused p = true := by simpa using hrefused
  rw [afterDiscard, if_neg hrefused']
  cases hthere : (v.without lost).tree.get? a with
  | none =>
    rw [unlink_of_none hlocate' hthere]
    have hne : a ≠ [] := (deadEnd_of_isFile hp hlocate).replaceable.ne_nil
    have hgone : v.spares lost a = false := by
      by_contra hspared
      rw [get?_without hne, if_pos (eq_true_of_ne_false hspared), hentry] at hthere
      cases hthere
    have hsame : v.tree.restrict (v.spares lost) = v.tree.restrict (v.spares (lost ++ [p])) := by
      refine v.tree.restrict_congr fun b _ => ?_
      rw [hspares b]
      by_cases hba : b = a
      · rw [hba, hgone, Bool.false_and]
      · rw [decide_eq_true hba, Bool.and_true]
    exact congrArg Except.ok (View.ext hsame rfl)
  | some e' =>
    have hreplaceable : Replaceable (v.without lost).tree a := by
      intro hdir
      rw [hends.tree.get? hdir] at hentry
      exact hdirectory (Option.some.inj hentry).symm
    have hsame : (v.tree.restrict (v.spares lost)).erase a =
        v.tree.restrict (v.spares (lost ++ [p])) := by
      rw [Tree.erase_restrict]
      exact congrArg _ (funext fun b => (hspares b).symm)
    rw [unlink_of_some hlocate' hthere hreplaceable]
    exact congrArg Except.ok (View.ext hsame rfl)

theorem afterDiscards_without {rest : List Path} (hlost : ∀ p ∈ lost, v.isFile p = .ok true)
    (hrest : ∀ p ∈ rest, v.isFile p = .ok true) (hrefused : ∀ p ∈ rest, ¬ refused p) :
    (v.without lost).afterDiscards refused rest = (.ok (), v.without (lost ++ rest)) := by
  induction rest generalizing lost with
  | nil =>
    rw [List.append_nil]
    rfl
  | cons p rest ih =>
    obtain ⟨hp, hrest⟩ := List.forall_mem_cons.mp hrest
    obtain ⟨hp', hrefused⟩ := List.forall_mem_cons.mp hrefused
    have hlost' : ∀ q ∈ lost ++ [p], v.isFile q = .ok true :=
      List.forall_mem_append.mpr ⟨hlost, by simpa using hp⟩
    rw [afterDiscards, afterDiscard_without hlost hp hp']
    dsimp only
    rw [ih hlost' hrest hrefused, List.append_assoc, List.singleton_append]

theorem afterDiscards_of_refused {rest : List Path} (hrefused : refused p) :
    v.afterDiscards refused (p :: rest) = (.error ⟨.permissionDenied, p.text⟩, v) := by
  have hcontains : refused p = true := by simpa using hrefused
  rw [afterDiscards, afterDiscard, if_pos hcontains]

/-- Deleting fails at the first file that is refused. -/
theorem exists_of_afterDiscards_error {rest : List Path} {e : FileError}
    (hlost : ∀ p ∈ lost, v.isFile p = .ok true) (hrest : ∀ p ∈ rest, v.isFile p = .ok true)
    (h : ((v.without lost).afterDiscards refused rest).1 = .error e) :
    ∃ deleted p left, rest = deleted ++ p :: left ∧ refused p ∧
      (∀ q ∈ deleted, ¬ refused q) ∧
      (v.without lost).afterDiscards refused rest =
        (.error ⟨.permissionDenied, p.text⟩, v.without (lost ++ deleted)) := by
  induction rest generalizing lost with
  | nil => cases h
  | cons p rest ih =>
    obtain ⟨hp, hrest⟩ := List.forall_mem_cons.mp hrest
    by_cases hrefused : refused p
    · refine ⟨[], p, rest, rfl, hrefused, nofun, ?_⟩
      rw [afterDiscards_of_refused hrefused, List.append_nil]
    · have hlost' : ∀ q ∈ lost ++ [p], v.isFile q = .ok true :=
        List.forall_mem_append.mpr ⟨hlost, by simpa using hp⟩
      rw [afterDiscards, afterDiscard_without hlost hp hrefused] at h ⊢
      obtain ⟨deleted, q, left, rfl, hq, hdeleted, hafter⟩ := ih hlost' hrest h
      refine ⟨p :: deleted, q, left, rfl, hq, List.forall_mem_cons.mpr ⟨hrefused, hdeleted⟩, ?_⟩
      dsimp only
      rw [hafter, List.append_assoc, List.singleton_append]

/-! ## What is left of the files -/

/-- A path to a regular file comes to it by the entry that it names. -/
theorem exists_end_of_isFile (hp : v.isFile p = .ok true)
    (hlocate : v.locate .findLink p = .ok ⟨a, 0⟩) :
    ∃ spot content executable, v.locate .find p = .ok spot ∧
      v.tree.at? spot = some (.file content executable) ∧
      (spot = ⟨a, 0⟩ ∨ ∃ target links, v.tree.get? a = some (.link target) ∧
        Walks v.tree .find links (linkStart a target) (stepsOf target) spot) := by
  obtain ⟨content, executable, hfind⟩ := isFile_iff.mp hp
  obtain ⟨spot, hspot, hthere⟩ := stat_eq_ok_iff.mp (find_eq_some_iff.mp hfind).2
  obtain ⟨-, hwalks⟩ := locate_eq_ok_iff.mp hspot
  obtain ⟨mid, hmid, hend⟩ := hwalks.exists_findLink
  obtain rfl : mid = ⟨a, 0⟩ := hmid.unique (locate_eq_ok_iff.mp hlocate).2
  exact ⟨spot, content, executable, hspot, hthere, hend.imp_left Eq.symm⟩

/-- A link that still leads to something leads there by every path that came to it. -/
theorem locate_of_link (hends : v.LosesEnds after) {target : String} {links links' : Nat}
    {spot spot' : Place} (hspot : v.locate .find p = .ok spot)
    (hhere : after.locate .findLink p = .ok ⟨a, 0⟩)
    (hlink : after.tree.get? a = some (.link target))
    (hwalks : Walks v.tree .find links (linkStart a target) (stepsOf target) spot)
    (hwalks' : Walks after.tree .find links' (linkStart a target) (stepsOf target) spot')
    (hthere : after.tree.at? spot' = some e) : after.locate .find p = .ok spot' := by
  obtain rfl := hwalks.unique (hwalks'.of_within hends.within.tree hthere)
  obtain ⟨spot', hspot', rfl | ⟨b, rfl, -, hgone⟩⟩ := hends.exists_locate hspot
  · exact hspot'
  · -- the path comes by the link, and that is not what has been lost
    obtain ⟨mid, hmid, hend⟩ := (locate_eq_ok_iff.mp hspot').2.exists_findLink
    obtain rfl : mid = ⟨a, 0⟩ := hmid.unique (locate_eq_ok_iff.mp hhere).2
    rcases hend with heq | ⟨target', links, htarget, hwalks⟩
    · obtain rfl : a = b := congrArg Place.address heq
      cases hgone.symm.trans hlink
    · cases hlink.symm.trans htarget
      rw [hspot', hwalks.unique hwalks']

/-- Of two files that name one entry, both are left or none. -/
theorem isFile_of_same_named (hends : v.LosesEnds after) (hp : v.isFile p = .ok true)
    (hlocate : v.locate .findLink p = .ok ⟨a, 0⟩) (hq : after.isFile q = .ok true)
    (hlocate' : v.locate .findLink q = .ok ⟨a, 0⟩) : after.isFile p = .ok true := by
  have hhere := hends.locate_findLink hlocate
  obtain ⟨spot, _, _, hspot, hthere, hend⟩ := exists_end_of_isFile hp hlocate
  obtain ⟨spot', content, executable, -, hthere', hend'⟩ :=
    exists_end_of_isFile hq (hends.locate_findLink hlocate')
  have hleads : after.locate .find p = .ok spot' := by
    rcases hend' with rfl | ⟨target, links', hlink, hwalks'⟩
    · exact (noLink_of_file (held?_eq_some_iff.mpr ⟨_, hhere, hthere'⟩)).locate hhere
    · have hlink' := hends.tree.get? hlink
      rcases hend with rfl | ⟨target', links, htarget, hwalks⟩
      · cases hlink'.symm.trans hthere
      · cases hlink'.symm.trans htarget
        exact locate_of_link hends hspot hhere hlink hwalks hwalks' hthere'
  obtain ⟨_, _, hfind⟩ := isFile_iff.mp hp
  have hstat := stat_eq_ok_iff.mpr ⟨spot', hleads, hthere'⟩
  exact isFile_iff.mpr
    ⟨content, executable, find_eq_some_iff.mpr ⟨(find_eq_some_iff.mp hfind).1, hstat⟩⟩

/-- What is left of the files: those that are files still. -/
def stillFiles (after : View) (files : List Path) : List Path :=
  files.filter fun p => after.isFile p = .ok true

theorem mem_stillFiles_iff :
    p ∈ after.stillFiles files ↔ p ∈ files ∧ after.isFile p = .ok true := by
  rw [stillFiles, List.mem_filter, decide_eq_true_iff]

/-- Deleting the files that are left comes to the same as deleting all of them exactly if each one
that is there is a file still. -/
theorem without_stillFiles_iff {rest : List Path} (hlost : ∀ p ∈ lost, v.isFile p = .ok true)
    (hrest : ∀ p ∈ rest, v.isFile p = .ok true) :
    v.without (lost ++ (v.without lost).stillFiles rest) = v.without (lost ++ rest) ↔
      ∀ p ∈ rest, (v.without lost).held? p ≠ none → (v.without lost).isFile p = .ok true := by
  have hnamed := losesNamed_without hlost
  have hends := hnamed.losesEnds
  constructor
  · intro heq p hp hheld
    obtain ⟨a, e, hlocate, hentry, hdirectory⟩ := exists_named_of_isFile (hrest p hp)
    have hgone : (v.without (lost ++ rest)).tree.get? a = none :=
      (get?_without_eq_none_iff hentry hdirectory).mpr ⟨p, List.mem_append_right _ hp, hlocate⟩
    rw [← heq] at hgone
    obtain ⟨q, hq, hlocate'⟩ := (get?_without_eq_none_iff hentry hdirectory).mp hgone
    rcases List.mem_append.mp hq with hq | hq
    · rw [held?_of_locate (hends.locate_findLink hlocate)] at hheld
      exact absurd ((get?_without_eq_none_iff hentry hdirectory).mpr ⟨q, hq, hlocate'⟩) hheld
    · exact isFile_of_same_named hends (hrest p hp) hlocate (mem_stillFiles_iff.mp hq).2 hlocate'
  · intro hall
    refine View.ext (v.tree.restrict_congr fun a ha => ?_) rfl
    rw [Bool.eq_iff_iff, spares_iff, spares_iff]
    refine or_congr_right ?_
    constructor
    · intro hspared p hp hlocate
      rcases List.mem_append.mp hp with hlost | hrest
      · exact hspared p (List.mem_append_left _ hlost) hlocate
      · have hkept := hnamed.kept a fun q hq => hspared q (List.mem_append_left _ hq)
        have hheld : (v.without lost).held? p ≠ none := by
          rwa [held?_of_locate (hends.locate_findLink hlocate), hkept]
        have hstill := mem_stillFiles_iff.mpr ⟨hrest, hall p hrest hheld⟩
        exact hspared p (List.mem_append_right _ hstill) hlocate
    · intro hspared p hp
      apply hspared p
      rcases List.mem_append.mp hp with hp | hp
      · exact List.mem_append_left _ hp
      · exact List.mem_append_right _ (mem_stillFiles_iff.mp hp).1

end View

end FileSystem

end HotPath
