import HotPath.Proofs.FileSystem.Naming
import HotPath.Proofs.Machine.Frames
import HotPath.Proofs.Outputs
import HotPath.Proofs.Pipeline.Sampling

/-!
# What a check changes

A check writes one file and deletes it again, to see whether files can be written. It starts no
tool, and nothing that is held elsewhere changes (`Run.held?_probeWriting`), whether or not the file
can be written and deleted.
-/

namespace HotPath.Run

open FileSystem

variable {m : Machine} {p : Path}

/-! ## Seeing whether files can be written -/

/-- The check writes one file, and deletes it if it can. -/
theorem exec_probeWriting_cases (workDir : Path) (m : Machine) :
    ((probeWriting workDir).exec m).2.view = m.view ∨
      ∃ written, m.view.write (workDir.child (probeName m.process)) probeContent = .ok written ∧
        (((probeWriting workDir).exec m).2.view = written ∨
          written.unlink (workDir.child (probeName m.process)) =
            .ok ((probeWriting workDir).exec m).2.view) := by
  unfold probeWriting
  rw [exec_bind_ok (exec_get m), exec_tryCatch]
  generalize workDir.child (probeName m.process) = q
  have hwriting := exec_writeFile q probeContent m
  by_cases hnul : hasNul q = true
  · rw [if_pos hnul] at hwriting
    rw [exec_bind_error hwriting]
    exact .inl rfl
  rw [if_neg hnul] at hwriting
  cases hwrite : m.view.write q probeContent with
  | error cause =>
    rw [hwrite] at hwriting
    rw [exec_bind_error hwriting]
    exact .inl rfl
  | ok written =>
    rw [hwrite] at hwriting
    rw [exec_bind_ok hwriting]
    have hdeleting := exec_deleteFile q { m with view := written }
    by_cases hrefused : m.refused q = true
    · rw [if_pos hrefused] at hdeleting
      rw [exec_bind_error hdeleting]
      exact .inr ⟨written, rfl, .inl rfl⟩
    rw [if_neg hrefused] at hdeleting
    dsimp only at hdeleting
    cases hunlink : written.unlink q with
    | error cause =>
      rw [hunlink] at hdeleting
      rw [exec_bind_error hdeleting]
      exact .inr ⟨written, rfl, .inl rfl⟩
    | ok deleted =>
      rw [hunlink] at hdeleting
      rw [exec_bind_ok hdeleting]
      exact .inr ⟨written, rfl, .inr hunlink⟩

/-- The check changes nothing but the file that it writes. -/
theorem held?_probeWriting {workDir : Path}
    (hlink : m.view.NoLink (workDir.child (probeName m.process)))
    (hne : ¬ m.view.SamePlace p (workDir.child (probeName m.process))) :
    ((probeWriting workDir).exec m).2.view.held? p = m.view.held? p := by
  rcases exec_probeWriting_cases workDir m with hview | ⟨written, hwrite, hview⟩
  · rw [hview]
  · obtain ⟨hwritten, hne'⟩ := View.held?_write_of_ne hlink hwrite hne
    rcases hview with hview | hunlink
    · rw [hview, hwritten]
    · obtain ⟨executable, hheld⟩ := View.held?_write hlink hwrite
      have hfile := View.noLink_of_file hheld
      rw [← hwritten]
      apply View.held?_unlink_of_ne hunlink _ hne'
      intro a ha
      obtain ⟨b, -, hreplaceable, hb, -, -⟩ := View.exists_of_unlink hunlink
      have hab : (⟨b, 0⟩ : Place) = ⟨a, 0⟩ := Except.ok.inj (hb.symm.trans ha)
      obtain rfl : b = a := congrArg Place.address hab
      exact deadEnd_of_not_link hreplaceable (hfile.at? ha)

/-! ## The whole check -/

theorem exec_prerequisites_cases (c : Config) (m : Machine) :
    ((prerequisites c).exec m).2 = m ∨
      ((prerequisites c).exec m).2 = ((probeWriting c.workDir).exec m).2 := by
  unfold prerequisites
  rw [exec_bind_ok (exec_get m), exec_bind, exec_lift]
  cases lookForManifest m.view c.workDir with
  | error e => exact .inl rfl
  | ok manifest =>
    right
    dsimp only [Except.mapError]
    rw [exec_bind]
    cases hprobe : (probeWriting c.workDir).exec m with
    | mk result after => cases result <;> rfl

/-- The whole check changes files only where it sees whether they can be written. -/
theorem exec_reportPrerequisites_cases (c : Config) (m : Machine) :
    ((reportPrerequisites c).exec m).2.view = m.view ∨
      ((reportPrerequisites c).exec m).2.view = ((probeWriting c.workDir).exec m).2.view := by
  have hview : ((reportPrerequisites c).exec m).2.view = ((prerequisites c).exec m).2.view := by
    rw [reportPrerequisites_eq_bind, exec_bind]
    cases (prerequisites c).exec m with
    | mk result after =>
      cases result with
      | error fault => rfl
      | ok checks => exact congrArg World.view (quiet_reportChecks checks after).world
  rw [hview]
  rcases exec_prerequisites_cases c m with h | h
  · exact .inl (congrArg Machine.view h)
  · exact .inr (congrArg Machine.view h)

end HotPath.Run
