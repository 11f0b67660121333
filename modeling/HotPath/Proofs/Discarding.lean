import HotPath.Proofs.Cleaning
import HotPath.Proofs.FileSystem.DeadEnds
import HotPath.Proofs.Listing

/-!
# Deleting the outputs

A path that is an output names a dead end: a file, or a link that leads to a file. So while the
outputs are deleted one after the other, the paths that are still to come name the entries that they
named at the start, or nothing any more where two paths name one entry.
-/

namespace HotPath

open FileSystem Glob

/-! ## Searches without some dead ends -/

namespace Glob

variable {v v' : View} {keep keep' : Path → Except FileError Bool} {directories : Bool}
  {steps rest : List Step} {p : Path} {found : List Path}

theorem exists_leadsOn (hwithin : v'.Within v) {name : String} {e : Entry} {b : Bool}
    (h : leadsOn v p name e = .ok b) :
    ∃ b', leadsOn v' p name e = .ok b' ∧ (b' = true → b = true) := by
  cases e with
  | directory =>
    cases h
    exact ⟨true, rfl, id⟩
  | file =>
    cases h
    exact ⟨false, rfl, id⟩
  | link target =>
    obtain ⟨b', hb', hmono⟩ := hwithin.exists_isDirectory (mapError_eq_ok_iff.mp h)
    exact ⟨b', mapError_eq_ok_iff.mpr hb', hmono⟩

section Step

variable (hloses : v.LosesEnds v')
  (ih : ∀ {p found}, follow v keep directories rest p = .ok found →
    ∃ found', follow v' keep' directories rest p = .ok found')

include hloses ih

theorem exists_follow_exactly {name : String}
    (h : follow v keep directories (.exactly name :: rest) p = .ok found) :
    ∃ found', follow v' keep' directories (.exactly name :: rest) p = .ok found' := by
  rw [follow_exactly] at h ⊢
  obtain ⟨b, hb, h⟩ := bind_eq_ok_iff.mp h
  have hthere : ∃ b', (if endsHere directories rest then v'.isPresent (p.child name)
      else v'.isDirectory (p.child name)) = .ok b' ∧ (b' = true → b = true) := by
    split at hb
    · rw [if_pos ‹_›]
      exact hloses.within.exists_isPresent hb
    · rw [if_neg ‹_›]
      exact hloses.within.exists_isDirectory hb
  obtain ⟨b', hb', hmono⟩ := hthere
  rw [hb']
  cases b' with
  | false => exact ⟨[], rfl⟩
  | true =>
    rw [hmono rfl] at h
    exact ih h

theorem exists_followEntry {pieces : List Piece} {member : String × Entry}
    (h : followEntry v keep directories pieces rest p member = .ok found) :
    ∃ found', followEntry v' keep' directories pieces rest p member = .ok found' := by
  obtain ⟨b, hb, h⟩ := bind_eq_ok_iff.mp h
  have hadmitted : ∃ b', (if endsHere directories rest then .ok true
      else leadsOn v' p member.1 member.2) = .ok b' ∧ (b' = true → b = true) := by
    split at hb
    · rw [if_pos ‹_›]
      exact ⟨b, hb, id⟩
    · rw [if_neg ‹_›]
      exact exists_leadsOn hloses.within hb
  obtain ⟨b', hb', hmono⟩ := hadmitted
  rw [followEntry, hb']
  by_cases hboth : (b' && matchesPieces pieces member.1.toList) = true
  · obtain ⟨hb'', hmatches⟩ := (Bool.and_eq_true ..).mp hboth
    rw [hmono hb'', hmatches] at h
    obtain ⟨found', hfound'⟩ := ih h
    exact ⟨found', (if_pos hboth).trans hfound'⟩
  · exact ⟨[], if_neg hboth⟩

theorem exists_follow_covering {pieces : List Piece}
    (h : follow v keep directories (.covering pieces :: rest) p = .ok found) :
    ∃ found', follow v' keep' directories (.covering pieces :: rest) p = .ok found' := by
  rw [follow_covering] at h ⊢
  obtain ⟨members, hmembers, h⟩ := bind_eq_ok_iff.mp h
  obtain ⟨founds, hfounds, -⟩ := bind_eq_ok_iff.mp h
  obtain ⟨members', hmembers', hsubset⟩ := hloses.exists_list hmembers
  have hentries := exists_mapM_eq_ok_iff.mp ⟨founds, hfounds⟩
  obtain ⟨founds', hfounds'⟩ :
      ∃ founds', members'.mapM (followEntry v' keep' directories pieces rest p) = .ok founds' := by
    refine exists_mapM_eq_ok_iff.mpr fun member hmember => ?_
    obtain ⟨found, hfound⟩ := hentries member (hsubset hmember)
    exact exists_followEntry hloses ih hfound
  exact ⟨_, bind_eq_ok_iff.mpr ⟨members', hmembers', bind_eq_ok_iff.mpr ⟨founds', hfounds', rfl⟩⟩⟩

theorem exists_followBelow (h : followBelow v keep directories rest p = .ok found) :
    ∃ found', followBelow v' keep' directories rest p = .ok found' := by
  obtain ⟨here, hhere, h⟩ := bind_eq_ok_iff.mp h
  obtain ⟨members, hmembers, h⟩ := bind_eq_ok_iff.mp h
  obtain ⟨⟨⟩, hlooks, -⟩ := bind_eq_ok_iff.mp h
  obtain ⟨here', hhere'⟩ := ih hhere
  obtain ⟨members', hmembers', hsubset⟩ := hloses.exists_list hmembers
  have hlooks' : members'.forM (fun member => discard (leadsOn v' p member.1 member.2)) =
      .ok () := by
    refine forM_eq_ok_iff.mpr fun member hmember => ?_
    have hlook := forM_eq_ok_iff.mp hlooks member (hsubset hmember)
    obtain ⟨b, hb⟩ := discard_eq_ok_iff.mp hlook
    obtain ⟨b', hb', -⟩ := exists_leadsOn hloses.within hb
    exact discard_eq_ok_iff.mpr ⟨b', hb'⟩
  exact ⟨here', bind_eq_ok_iff.mpr ⟨here', hhere', bind_eq_ok_iff.mpr
    ⟨members', hmembers', bind_eq_ok_iff.mpr ⟨(), hlooks', rfl⟩⟩⟩⟩

theorem exists_follow_descend
    (h : follow v keep directories (.descend :: rest) p = .ok found) :
    ∃ found', follow v' keep' directories (.descend :: rest) p = .ok found' := by
  rw [follow_descend] at h ⊢
  obtain ⟨founds, hfounds, -⟩ := bind_eq_ok_iff.mp h
  have hall := exists_mapM_eq_ok_iff.mp ⟨founds, hfounds⟩
  -- the search has listed the directory itself, so the directory can be come to
  have hspot : ∃ spot, v.locate .find p = .ok spot := by
    obtain ⟨found, hfound⟩ := hall p List.mem_cons_self
    obtain ⟨here, -, hfound⟩ := bind_eq_ok_iff.mp hfound
    obtain ⟨members, hmembers, -⟩ := bind_eq_ok_iff.mp hfound
    exact View.exists_list_iff.mp ⟨members, hmembers⟩
  obtain ⟨spot, hspot⟩ := hspot
  have hbelow := hloses.directoriesBelow_subset hspot
  obtain ⟨founds', hfounds'⟩ : ∃ founds', (p :: ((v'.directoriesBelow p).map fun names =>
      (⟨p.root, p.names ++ names⟩ : Path)).mergeSort Path.le).mapM
        (followBelow v' keep' directories rest) = .ok founds' := by
    refine exists_mapM_eq_ok_iff.mpr fun q hq => ?_
    have hq' : q ∈ p :: ((v.directoriesBelow p).map fun names =>
        (⟨p.root, p.names ++ names⟩ : Path)).mergeSort Path.le := by
      simp only [List.mem_cons, List.mem_mergeSort] at hq ⊢
      exact hq.imp_right fun hq => List.map_subset _ hbelow hq
    obtain ⟨found, hfound⟩ := hall q hq'
    exact exists_followBelow hloses ih hfound
  exact ⟨_, bind_eq_ok_iff.mpr ⟨founds', hfounds', rfl⟩⟩

end Step

/-- A search that comes to its end does so without some dead ends, too. -/
theorem exists_follow (hloses : v.LosesEnds v')
    (hkeep : ∀ {p b}, keep p = .ok b → ∃ b', keep' p = .ok b')
    (h : follow v keep directories steps p = .ok found) :
    ∃ found', follow v' keep' directories steps p = .ok found' := by
  induction steps generalizing p found with
  | nil =>
    obtain ⟨b, hb, -⟩ := bind_eq_ok_iff.mp h
    obtain ⟨b', hb'⟩ := hkeep hb
    exact ⟨_, bind_eq_ok_iff.mpr ⟨b', hb', rfl⟩⟩
  | cons step rest ih =>
    cases step with
    | exactly name => exact exists_follow_exactly hloses ih h
    | covering pieces => exact exists_follow_covering hloses ih h
    | descend => exact exists_follow_descend hloses ih h

end Glob

variable {v v' u after : View} {workDir p : Path} {pattern : PathPattern} {files : List Path}

theorem exists_filesFound (hloses : v.LosesEnds v')
    (h : filesFound v workDir pattern = .ok files) :
    ∃ files', filesFound v' workDir pattern = .ok files' := by
  refine exists_map_eq_ok_iff.mpr ?_
  obtain ⟨found, hfound, -⟩ := exists_of_filesFound h
  obtain ⟨b, hb, hfound⟩ := bind_eq_ok_iff.mp hfound
  obtain ⟨b', hb', hmono⟩ := hloses.within.exists_isDirectory hb
  cases b' with
  | false => exact ⟨[], bind_eq_ok_iff.mpr ⟨false, hb', rfl⟩⟩
  | true =>
    rw [hmono rfl] at hfound
    have hkeep {q : Path} {b : Bool} (hq : v.isFile q = .ok b) : ∃ b', v'.isFile q = .ok b' :=
      (hloses.within.exists_isFile hq).imp fun _ => And.left
    obtain ⟨found', hfound'⟩ := exists_follow hloses hkeep hfound
    exact ⟨found', bind_eq_ok_iff.mpr ⟨true, hb', hfound'⟩⟩

/-! ## Entries that are named -/

namespace FileSystem.View

variable {refused : Path → Bool} {a : Address}

/-- A path to a regular file names a file or a link. -/
theorem exists_named_of_isFile (h : v.isFile p = .ok true) :
    ∃ a e, v.locate .findLink p = .ok ⟨a, 0⟩ ∧ v.tree.get? a = some e ∧ e ≠ .directory := by
  obtain ⟨content, executable, hfind⟩ := isFile_iff.mp h
  obtain ⟨-, hstat⟩ := find_eq_some_iff.mp hfind
  obtain ⟨e, hheld⟩ := exists_held?_of_stat hstat
  have hdirectory : e ≠ .directory := by
    rintro rfl
    have hlink : v.NoLink p := by
      intro target
      rw [hheld]
      exact nofun
    obtain ⟨spot, hspot, hthere⟩ := held?_eq_some_iff.mp hheld
    rw [stat_eq_ok_iff.mpr ⟨spot, hlink.locate hspot, hthere⟩] at hstat
    cases hstat
  obtain ⟨⟨a, lost⟩, hspot, hthere⟩ := held?_eq_some_iff.mp hheld
  obtain rfl : lost = 0 := by
    by_contra hlost
    exact hdirectory (Option.some.inj (hthere.symm.trans (if_neg hlost)))
  exact ⟨a, e, hspot, hthere, hdirectory⟩

/-- `after` is `v` without the entries that some paths to regular files name. -/
structure LosesNamed (v : View) (files : List Path) (after : View) : Prop where
  cwd : after.cwd = v.cwd
  lost : ∀ p ∈ files, v.isFile p = .ok true ∧ ∃ a e, v.locate .findLink p = .ok ⟨a, 0⟩ ∧
    v.tree.get? a = some e ∧ e ≠ .directory ∧ after.tree.get? a = none
  kept : ∀ a, (∀ p ∈ files, v.locate .findLink p ≠ .ok ⟨a, 0⟩) →
    after.tree.get? a = v.tree.get? a

theorem LosesNamed.refl (v : View) : v.LosesNamed [] v := ⟨rfl, nofun, fun _ _ => rfl⟩

theorem LosesNamed.losesEnds (h : v.LosesNamed files after) : v.LosesEnds after := by
  refine ⟨h.cwd, fun a => ?_⟩
  by_cases hnamed : ∃ p ∈ files, v.locate .findLink p = .ok ⟨a, 0⟩
  · obtain ⟨p, hp, hlocate⟩ := hnamed
    obtain ⟨hfile, b, e, hlocate', -, -, hnone⟩ := h.lost p hp
    obtain rfl : a = b := congrArg Place.address (Except.ok.inj (hlocate.symm.trans hlocate'))
    exact .inr ⟨hnone, deadEnd_of_isFile hfile hlocate⟩
  · exact .inl (h.kept a fun p hp hlocate => hnamed ⟨p, hp, hlocate⟩)

/-- The entry that a path names is taken away, unless it is gone. -/
theorem exists_afterDiscard (hrefused : ¬ refused p)
    (hlocate : u.locate .findLink p = .ok ⟨a, 0⟩) (ha : Replaceable u.tree a) :
    ∃ after, u.afterDiscard refused p = .ok after ∧ after.cwd = u.cwd ∧
      after.tree.get? a = none ∧ Tree.SameOff a u.tree after.tree := by
  have hrefused' : ¬ refused p = true := by simpa using hrefused
  rw [afterDiscard, if_neg hrefused']
  cases hentry : u.tree.get? a with
  | none =>
    rw [unlink_of_none hlocate hentry]
    exact ⟨u, rfl, rfl, hentry, fun _ _ => rfl⟩
  | some e =>
    rw [unlink_of_some hlocate hentry ha]
    exact ⟨_, rfl, rfl, u.tree.get?_erase_self ha.ne_nil, u.tree.sameOff_erase a⟩

theorem LosesNamed.discard (h : v.LosesNamed files u) (hp : v.isFile p = .ok true)
    (hrefused : ¬ refused p) :
    ∃ after, u.afterDiscard refused p = .ok after ∧ v.LosesNamed (files ++ [p]) after := by
  obtain ⟨a, e, hlocate, hentry, hdirectory⟩ := exists_named_of_isFile hp
  have hends := h.losesEnds
  have ha : Replaceable u.tree a := by
    intro hthere
    rw [hends.tree.get? hthere] at hentry
    exact hdirectory (Option.some.inj hentry).symm
  obtain ⟨after, hafter, hcwd, hnone, hoff⟩ :=
    exists_afterDiscard hrefused (hends.locate_findLink hlocate) ha
  refine ⟨after, hafter, hcwd.trans h.cwd, fun q hq => ?_, fun b hb => ?_⟩
  · rcases List.mem_append.mp hq with hq | hq
    · obtain ⟨hfile, b, e', hlocate', hentry', hdirectory', hlost⟩ := h.lost q hq
      refine ⟨hfile, b, e', hlocate', hentry', hdirectory', ?_⟩
      by_cases hba : b = a
      · rw [hba, hnone]
      · rw [hoff b hba, hlost]
    · rw [List.mem_singleton.mp hq]
      exact ⟨hp, a, e, hlocate, hentry, hdirectory, hnone⟩
  · have hba : b ≠ a := by
      rintro rfl
      exact hb p (by simp) hlocate
    rw [hoff b hba]
    exact h.kept b fun q hq => hb q (List.mem_append_left _ hq)

/-- One after the other, the entries that the paths name are taken away. -/
theorem LosesNamed.discards {rest : List Path} (h : v.LosesNamed files u)
    (hrest : ∀ p ∈ rest, v.isFile p = .ok true) (hrefused : ∀ p ∈ rest, ¬ refused p) :
    ∃ after, u.afterDiscards refused rest = (.ok (), after) ∧
      v.LosesNamed (files ++ rest) after := by
  induction rest generalizing u files with
  | nil =>
    rw [List.append_nil]
    exact ⟨u, rfl, h⟩
  | cons p rest ih =>
    obtain ⟨next, hnext, hone⟩ := h.discard (hrest p List.mem_cons_self)
      (hrefused p List.mem_cons_self)
    obtain ⟨after, hafter, hall⟩ := ih hone (fun q hq => hrest q (List.mem_cons_of_mem p hq))
      fun q hq => hrefused q (List.mem_cons_of_mem p hq)
    rw [List.append_assoc, List.singleton_append] at hall
    exact ⟨after, by rw [afterDiscards, hnext]; exact hafter, hall⟩

end FileSystem.View

/-! ## Deleting all of them -/

theorem filesFound_of_losesNamed (h : filesFound v workDir pattern = .ok files)
    (hlost : v.LosesNamed files after) :
    filesFound after workDir pattern = .ok [] := by
  have hends := hlost.losesEnds
  obtain ⟨files', hfiles'⟩ := exists_filesFound hends h
  have hnone : files' = [] := by
    refine List.eq_nil_iff_forall_not_mem.mpr fun p hp => ?_
    have houtput := (mem_filesFound_iff hfiles').mp hp
    have hlisted := (mem_filesFound_iff h).mpr (houtput.of_within hends.within)
    obtain ⟨-, a, e, hlocate, -, -, hgone⟩ := hlost.lost p hlisted
    have hheld : after.held? p = none :=
      (View.held?_of_locate (hends.locate_findLink hlocate)).trans hgone
    exact View.not_isFile_of_held? hheld houtput.2.2
  rw [hfiles', hnone]

/-- **Deleting the outputs.** Where the outputs can be found and none of them is refused, exactly
the entries that they name are taken away. After that there is no output, and deleting the outputs
once more changes nothing. -/
theorem discardOutputs_discards (workDir : Path) (text : String) (m : Machine)
    (hrefused : ∀ files, outputs m.view workDir text = .ok files →
      ∀ p ∈ files, ¬ m.refused p) :
    match outputs m.view workDir text with
    | .error e => (Run.discardOutputs workDir text).exec m = (.error e.fault, m)
    | .ok files => ∃ after, m.view.LosesNamed files after ∧
        (Run.discardOutputs workDir text).exec m = (.ok files, { m with view := after }) ∧
        outputs after workDir text = .ok [] ∧
        (Run.discardOutputs workDir text).exec { m with view := after } =
          (.ok [], { m with view := after }) := by
  cases houtputs : outputs m.view workDir text with
  | error e => exact Run.exec_discardOutputs_error houtputs
  | ok files =>
    obtain ⟨pattern, hparse, hfiles⟩ := bind_eq_ok_iff.mp houtputs
    replace hparse := mapError_eq_ok_iff.mp hparse
    replace hfiles := mapError_eq_ok_iff.mp hfiles
    have hisFile : ∀ p ∈ files, m.view.isFile p = .ok true := fun p hp =>
      ((mem_filesFound_iff hfiles).mp hp).2.2
    obtain ⟨after, hafter, hlost⟩ :=
      (View.LosesNamed.refl m.view).discards hisFile (hrefused files houtputs)
    rw [List.nil_append] at hlost
    have hnone : outputs after workDir text = .ok [] := by
      rw [outputs_of_parse after workDir hparse, filesFound_of_losesNamed hfiles hlost]
      rfl
    refine ⟨after, hlost, ?_, hnone, ?_⟩
    · rw [Run.exec_discardOutputs_ok houtputs, hafter]
      rfl
    · exact Run.exec_discardOutputs_ok (m := { m with view := after }) hnone

/-- Two directories, the second by a link, with a file, a link to it, and a link to nothing. -/
def linkedOutputs : View where
  tree := ⟨[(["w"], .directory), (["w", "d"], .directory), (["w", "l"], .link "d"),
    (["w", "d", "o1"], .file [] false), (["w", "d", "o2"], .link "o1"),
    (["w", "d", "o3"], .link "gone")], by decide⟩
  cwd := ⟨[], 0⟩
  rooted := by decide
  named := by decide +kernel
  inDirectory := rfl

/-- The outputs of `linkedOutputs`: the file and the link to it, by both directories. -/
def linkedPaths : List Path :=
  [⟨.slash, ["w", "d", "o1"]⟩, ⟨.slash, ["w", "d", "o2"]⟩, ⟨.slash, ["w", "l", "o1"]⟩,
    ⟨.slash, ["w", "l", "o2"]⟩]

theorem discardOutputs_discards_linked :
    (∀ files, outputs linkedOutputs ⟨.slash, ["w"]⟩ "*/o*" = .ok files →
        ∀ p ∈ files, ¬ (Machine.bare linkedOutputs).refused p) ∧
      outputs linkedOutputs ⟨.slash, ["w"]⟩ "*/o*" = .ok linkedPaths ∧
      ∃ after, linkedOutputs.LosesNamed linkedPaths after ∧
        (Run.discardOutputs ⟨.slash, ["w"]⟩ "*/o*").exec (.bare linkedOutputs) =
          (.ok linkedPaths, { Machine.bare linkedOutputs with view := after }) ∧
        after.tree.get? ["w", "d", "o3"] = some (.link "gone") := by
  have hrefused : ∀ files, outputs linkedOutputs ⟨.slash, ["w"]⟩ "*/o*" = .ok files →
      ∀ p ∈ files, ¬ (Machine.bare linkedOutputs).refused p :=
    fun _ _ _ _ => Bool.false_ne_true
  have houtputs : outputs linkedOutputs ⟨.slash, ["w"]⟩ "*/o*" = .ok linkedPaths := by cbv
  have hdiscards := discardOutputs_discards ⟨.slash, ["w"]⟩ "*/o*" (.bare linkedOutputs) hrefused
  rw [show outputs (Machine.bare linkedOutputs).view _ _ = _ from houtputs] at hdiscards
  obtain ⟨after, hlost, hexec, -⟩ := hdiscards
  have hnamed : linkedPaths.map (linkedOutputs.locate .findLink) = [.ok ⟨["w", "d", "o1"], 0⟩,
      .ok ⟨["w", "d", "o2"], 0⟩, .ok ⟨["w", "d", "o1"], 0⟩, .ok ⟨["w", "d", "o2"], 0⟩] := by cbv
  have hkept : ∀ p ∈ linkedPaths,
      linkedOutputs.locate .findLink p ≠ .ok ⟨["w", "d", "o3"], 0⟩ := by
    intro p hp hlocate
    have hmem := List.mem_map_of_mem (f := linkedOutputs.locate .findLink) hp
    rw [hnamed, hlocate] at hmem
    simp at hmem
  exact ⟨hrefused, houtputs, after, hlost, hexec, hlost.kept _ hkept⟩

/-- Where a link leads to a name that is too long, the outputs cannot be found, and none of them is
deleted. -/
theorem not_forall_discards :
    ¬ ∀ (workDir : Path) (text : String) (pattern : PathPattern) (m : Machine),
      PathPattern.parse text = .ok pattern → (∀ p, ¬ m.refused p) →
      ∃ files after, outputs m.view workDir text = .ok files ∧ m.view.LosesNamed files after ∧
        (Run.discardOutputs workDir text).exec m = (.ok files, { m with view := after }) ∧
        outputs after workDir text = .ok [] ∧
        (Run.discardOutputs workDir text).exec { m with view := after } =
          (.ok [], { m with view := after }) := by
  intro h
  obtain ⟨pattern, hparse⟩ := exists_parse_of_name ⟨by decide, by decide⟩
    (by decide : hasDoubleStar "o*".toList = false)
  obtain ⟨files, -, hfiles, -⟩ := h ⟨.slash, ["w"]⟩ "o*" pattern (.bare longLink) hparse
    fun _ => Bool.false_ne_true
  exact outputs_longLink_ne files hfiles

end HotPath
