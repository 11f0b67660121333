import HotPath.Proofs.FileSystem.Linkless
import HotPath.Proofs.Pipeline.WorkingDirectory

/-!
# Checking without a trace

A check that finds no file at the place of its probe leaves the files as they were: what it writes
it deletes again (`View.unlink_write`). The one exception is a probe that can be written and then
may not be deleted. It stays behind as the only change, and the check fails with the status 2
(`view_reportPrerequisites`, `not_forall_view_reportPrerequisites`).
-/

namespace HotPath

namespace FileSystem

/-- What is put where nothing was and taken away again leaves the tree as it was. -/
theorem Tree.erase_insert {t : Tree} {a : Address} (h : t.get? a = none) (e : Entry) :
    (t.insert a e).erase a = t := by
  have ha : a ≠ [] := by
    rintro rfl
    cases h
  have hfresh : ∀ entry ∈ t.entries, entry.1 ≠ a := by
    rintro ⟨b, e⟩ hmem rfl
    rw [(t.mem_entries_iff ha).mp hmem] at h
    cases h
  have hentries : t.entries.filter (fun entry => decide (entry.1 ≠ a)) = t.entries :=
    List.filter_eq_self.mpr fun entry hmem => decide_eq_true (hfresh entry hmem)
  obtain ⟨entries, hnodup⟩ := t
  simp only [insert, erase, restrict] at hentries ⊢
  congr 1
  rw [List.filter_cons_of_neg (by simp), hentries, hentries]

namespace View

variable {v v' : View} {p : Path} {content : Bytes}

theorem noLink_of_held?_eq_none (h : v.held? p = none) : v.NoLink p := by
  intro target
  rw [h]
  exact nofun

/-- A file that is written where nothing was is new, and no program may be made of it. -/
theorem exists_of_write_fresh (hnone : v.held? p = none) (h : v.write p content = .ok v') :
    ∃ a, ∃ hfree : Free v.tree a, v.locate .findLink p = .ok ⟨a, 0⟩ ∧ v.tree.get? a = none ∧
      v' = v.insert a (.file content false) hfree := by
  obtain ⟨⟨a, executable⟩, hspot, h⟩ := bind_eq_ok_iff.mp h
  obtain ⟨hfree, rfl⟩ := putAt_eq_ok_iff.mp h
  obtain ⟨hlocate, -⟩ := exists_of_fileSpot hspot
  have hnamed := (noLink_of_held?_eq_none hnone).locate_findLink hlocate
  have hgone : v.tree.get? a = none := (held?_of_locate hnamed).symm.trans hnone
  have hplain : v.fileSpot p = .ok (a, false) := by
    have hthere : v.tree.at? ⟨a, 0⟩ = none := hgone
    refine bind_eq_ok_iff.mpr ⟨⟨a, 0⟩, hlocate, ?_⟩
    rw [hthere]
  rw [hplain] at hspot
  cases hspot
  exact ⟨a, hfree, hnamed, hgone, rfl⟩

/-- Deleting a file that was written where nothing was leaves the files as they were. -/
theorem unlink_write (hnone : v.held? p = none) (h : v.write p content = .ok v') :
    v'.unlink p = .ok v := by
  obtain ⟨a, hfree, hlocate, hnone, rfl⟩ := exists_of_write_fresh hnone h
  have hthere := v.tree.get?_insert_self (.file content false) hfree.replaceable.ne_nil
  have hnamed := locate_of_off (v.sameOff_insert (.file content false) hfree)
    (deadEnd_of_none hnone) hlocate
  rw [unlink_of_some hnamed hthere (Tree.replaceable_of_file hthere)]
  exact congrArg Except.ok (View.ext (Tree.erase_insert hnone _) rfl)

end View

end FileSystem

namespace Run

open FileSystem

/-- The file that a check writes to see whether files can be written. -/
def probe (c : Config) (m : Machine) : Path := c.workDir.child (probeName m.process)

/-- The check comes to write its probe, and then may not delete it. -/
structure Strands (c : Config) (m : Machine) : Prop where
  reached : ∃ manifest, lookForManifest m.view c.workDir = .ok manifest
  named : hasNul (probe c m) = false
  written : ∃ after, m.view.write (probe c m) probeContent = .ok after
  refused : m.refused (probe c m)

variable {c : Config} {m : Machine}

/-- Whether files can be written is seen by a file that is there only meanwhile, unless it may not
be deleted. -/
theorem exec_probeWriting (hnone : m.view.held? (probe c m) = none) :
    (probeWriting c.workDir).exec m =
      if hasNul (probe c m) then (.error .nulCharacter, m)
      else match m.view.write (probe c m) probeContent with
        | .error cause =>
          (.ok (.fail "work_dir_writable" (FileError.message ⟨cause, (probe c m).text⟩)), m)
        | .ok written =>
          if m.refused (probe c m) then
            (.ok (.fail "work_dir_writable"
              (FileError.message ⟨.permissionDenied, (probe c m).text⟩)),
              { m with view := written })
          else (.ok (.pass "work_dir_writable"), m) := by
  unfold probeWriting
  rw [exec_bind_ok (exec_get m), exec_tryCatch]
  rw [probe] at hnone ⊢
  generalize c.workDir.child (probeName m.process) = q at hnone ⊢
  have hwriting := exec_writeFile q probeContent m
  by_cases hnul : hasNul q = true
  · rw [if_pos hnul] at hwriting ⊢
    rw [exec_bind_error hwriting]
    rfl
  rw [if_neg hnul] at hwriting ⊢
  cases hwrite : m.view.write q probeContent with
  | error cause =>
    rw [hwrite] at hwriting
    rw [exec_bind_error hwriting]
    rfl
  | ok written =>
    rw [hwrite] at hwriting
    rw [exec_bind_ok hwriting]
    have hdeleting := exec_deleteFile q { m with view := written }
    dsimp only
    by_cases hrefused : m.refused q = true
    · rw [if_pos hrefused] at hdeleting
      rw [if_pos hrefused, exec_bind_error hdeleting]
      rfl
    · rw [if_neg hrefused, View.unlink_write hnone hwrite] at hdeleting
      rw [if_neg hrefused, exec_bind_ok hdeleting]
      rfl

theorem exec_projectChecks (c : Config) (m : Machine) :
    (projectChecks c).exec m =
      match lookForManifest m.view c.workDir with
      | .error reason => (.error (.file reason), m)
      | .ok manifest =>
        (((probeWriting c.workDir).exec m).1.map ([manifest, ·]),
          ((probeWriting c.workDir).exec m).2) := by
  unfold projectChecks
  rw [exec_bind_ok (exec_get m)]
  have hlift := exec_lift Fault.file (lookForManifest m.view c.workDir) m
  cases hmanifest : lookForManifest m.view c.workDir with
  | error reason =>
    rw [hmanifest] at hlift
    exact exec_bind_error hlift
  | ok manifest =>
    rw [hmanifest] at hlift
    rw [exec_bind_ok hlift]
    cases hprobe : (probeWriting c.workDir).exec m with
    | mk result after =>
      cases result with
      | error fault => exact exec_bind_error hprobe
      | ok check => exact exec_bind_ok hprobe

/-- What the whole check changes is what is changed to see the work directory, and a failed check
shows in the status. -/
theorem exec_reportPrerequisites (c : Config) (m : Machine) :
    ((reportPrerequisites c).exec m).2.view = ((projectChecks c).exec m).2.view ∧
      ∀ checks, ((projectChecks c).exec m).1 = .ok checks → checks.any (!·.passed) = true →
        ((reportPrerequisites c).exec m).1 = .ok 2 := by
  have heq : reportPrerequisites c = prerequisites c >>= reportChecks := rfl
  have hchecks := exec_prerequisites c m
  cases hproject : (projectChecks c).exec m with
  | mk result after =>
    rw [hproject] at hchecks
    cases result with
    | error fault =>
      rw [heq, exec_bind_error hchecks]
      exact ⟨rfl, nofun⟩
    | ok checks =>
      rw [heq, exec_bind_ok hchecks, exec_reportChecks]
      refine ⟨rfl, ?_⟩
      rintro _ ⟨⟩ hfailed
      rw [List.any_append, hfailed, Bool.or_true, if_pos rfl]

theorem view_of_not_strands (hnone : m.view.held? (probe c m) = none) (h : ¬ Strands c m) :
    ((reportPrerequisites c).exec m).2.view = m.view := by
  rw [(exec_reportPrerequisites c m).1, exec_projectChecks]
  cases hmanifest : lookForManifest m.view c.workDir with
  | error reason => rfl
  | ok manifest =>
    dsimp only
    rw [exec_probeWriting hnone]
    by_cases hnul : hasNul (probe c m) = true
    · rw [if_pos hnul]
    rw [if_neg hnul]
    cases hwrite : m.view.write (probe c m) probeContent with
    | error cause => rfl
    | ok written =>
      have hallowed : ¬ m.refused (probe c m) := fun hrefused =>
        h ⟨⟨manifest, hmanifest⟩, Bool.not_eq_true _ ▸ hnul, ⟨written, hwrite⟩, hrefused⟩
      dsimp only
      rw [if_neg hallowed]

/-- A probe that may not be deleted is all that is new, and the check fails. -/
theorem Strands.view_eq (h : Strands c m) (hnone : m.view.held? (probe c m) = none) :
    ((reportPrerequisites c).exec m).1 = .ok 2 ∧
      ∃ a, ∃ hfree : Free m.view.tree a, m.view.locate .findLink (probe c m) = .ok ⟨a, 0⟩ ∧
        m.view.tree.get? a = none ∧
        ((reportPrerequisites c).exec m).2.view =
          m.view.insert a (.file probeContent false) hfree := by
  obtain ⟨⟨manifest, hmanifest⟩, hnul, ⟨written, hwrite⟩, hrefused⟩ := h
  obtain ⟨hview, hstatus⟩ := exec_reportPrerequisites c m
  have hprobe := exec_probeWriting hnone
  rw [hnul, hwrite] at hprobe
  dsimp only at hprobe
  rw [if_neg Bool.false_ne_true, if_pos hrefused] at hprobe
  rw [exec_projectChecks, hmanifest, hprobe] at hview hstatus
  obtain ⟨a, hfree, hlocate, hgone, rfl⟩ := View.exists_of_write_fresh hnone hwrite
  exact ⟨hstatus _ rfl (by simp [Check.fail]), a, hfree, hlocate, hgone, hview⟩

/-- **A check leaves no trace.** Where no file has the name of its probe, a check leaves the files
as they were, except when it can write the probe and may not delete it: then the probe is all that
is new, and the check fails. -/
theorem view_reportPrerequisites (hnone : m.view.held? (probe c m) = none) :
    (¬ Strands c m → ((reportPrerequisites c).exec m).2.view = m.view) ∧
      (Strands c m → ((reportPrerequisites c).exec m).1 = .ok 2 ∧
        ∃ a, ∃ hfree : Free m.view.tree a, m.view.locate .findLink (probe c m) = .ok ⟨a, 0⟩ ∧
          m.view.tree.get? a = none ∧
          ((reportPrerequisites c).exec m).2.view =
            m.view.insert a (.file probeContent false) hfree) :=
  ⟨view_of_not_strands hnone, fun h => h.view_eq hnone⟩

/-- A machine without files, on which the probe may not be deleted. -/
def guardedMachine : Machine :=
  { Machine.bare .empty with refused := (· = ⟨.slash, [".perfchain_write_test_1"]⟩) }

/-- A project at the top directory. -/
def topProject : Config where
  workDir := ⟨.slash, []⟩
  binary := "p"

theorem locate_guardedMachine (purpose : Purpose) {name : String} (hname : IsFileName name)
    (hshort : ¬ maxPathBytes < (Path.mk .slash [name]).text.utf8ByteSize) :
    guardedMachine.view.locate purpose ⟨.slash, [name]⟩ = .ok ⟨[name], 0⟩ := by
  have hlinkless : guardedMachine.view.tree.Linkless := by decide
  exact (if_neg hshort).trans (walk_name hlinkless rfl (hname.namesEntry []))

theorem locate_guardedProbe (purpose : Purpose) :
    guardedMachine.view.locate purpose (probe topProject guardedMachine) =
      .ok ⟨[".perfchain_write_test_1"], 0⟩ :=
  locate_guardedMachine purpose (by decide +kernel) (by decide +kernel)

theorem strands_guardedMachine :
    guardedMachine.view.held? (probe topProject guardedMachine) = none ∧
      Strands topProject guardedMachine := by
  have hmanifest : guardedMachine.view.isFile (topProject.workDir.child manifestName) =
      .ok false := by
    have hlocate : guardedMachine.view.locate .find (topProject.workDir.child manifestName) =
        .ok ⟨["Cargo.toml"], 0⟩ :=
      locate_guardedMachine .find (by decide +kernel) (by decide +kernel)
    rw [View.isFile, View.read?, View.find, if_neg (by decide +kernel), View.stat, hlocate]
    rfl
  have hspot : guardedMachine.view.fileSpot (probe topProject guardedMachine) =
      .ok ([".perfchain_write_test_1"], false) := by
    rw [View.fileSpot, locate_guardedProbe]
    rfl
  refine ⟨(View.held?_of_locate (locate_guardedProbe .findLink)).trans rfl, ?_,
    by decide +kernel, ?_, by decide +kernel⟩
  · rw [lookForManifest, hmanifest]
    exact ⟨_, rfl⟩
  · rw [View.write, hspot]
    exact ⟨_, rfl⟩

theorem view_reportPrerequisites_guarded :
    guardedMachine.view.held? (probe topProject guardedMachine) = none ∧
      Strands topProject guardedMachine ∧
      ((reportPrerequisites topProject).exec guardedMachine).1 = .ok 2 ∧
      ((reportPrerequisites topProject).exec guardedMachine).2.view.tree.entries =
        [([".perfchain_write_test_1"], .file probeContent false)] := by
  obtain ⟨hnone, hstrands⟩ := strands_guardedMachine
  obtain ⟨hstatus, a, hfree, hlocate, -, hview⟩ := (view_reportPrerequisites hnone).2 hstrands
  obtain rfl : [".perfchain_write_test_1"] = a :=
    congrArg Place.address (Except.ok.inj ((locate_guardedProbe .findLink).symm.trans hlocate))
  exact ⟨hnone, hstrands, hstatus, by rw [hview]; rfl⟩

/-- A probe that may not be deleted stays behind. -/
theorem not_forall_view_reportPrerequisites :
    ¬ ∀ (c : Config) (m : Machine), m.view.held? (probe c m) = none →
      ((reportPrerequisites c).exec m).2.view = m.view := by
  intro h
  obtain ⟨hnone, hstrands⟩ := strands_guardedMachine
  obtain ⟨-, a, hfree, -, hgone, hview⟩ := hstrands.view_eq hnone
  have hsame := (h topProject guardedMachine hnone).symm.trans hview
  have hnew := guardedMachine.view.tree.get?_insert_self (.file probeContent false)
    hfree.replaceable.ne_nil
  rw [congrArg View.tree hsame, View.insert, hnew] at hgone
  cases hgone

end Run

end HotPath
