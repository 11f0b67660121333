import HotPath.CommandLine.Program
import HotPath.Proofs.Machine.Runs

/-!
# Runs of the program

The program stops at a line that it cannot read (`exec_program_of_stop`) and at a configuration that
it cannot load (`exec_program_of_config_error`); else it runs the pipeline of the command
(`exec_program_of_config`).
-/

namespace HotPath

open CommandLine Run

variable {line : List String} {m : Machine} {i : Invocation}

theorem exec_stop (s : Stop) (m : Machine) :
    (Run.stop s).exec m =
      (.ok (.stopped s.status), { m with out := m.out ++ s.out, err := m.err ++ s.err }) := by
  unfold Run.stop
  rw [exec_bind_ok (exec_modify _ m)]
  rfl

theorem exec_program_of_stop {s : Stop} (hparse : Invocation.parse line = .error s) :
    (Run.program line).exec m = (Run.stop s).exec m := by
  rw [Run.program, hparse]

theorem exec_program_of_config {c : Config} (hparse : Invocation.parse line = .ok i)
    (hconfig : i.config m = .ok c) :
    (Run.program line).exec m =
      (((i.pipeline c).exec m).1.map .finished, ((i.pipeline c).exec m).2) := by
  have hprogram : (Run.program line).exec m =
      (i.pipeline c >>= fun status => return .finished status).exec m := by
    unfold Run.program
    rw [hparse]
    dsimp only
    rw [exec_bind_ok (exec_get m), hconfig]
  rw [hprogram, exec_bind]
  rcases (i.pipeline c).exec m with ⟨_ | status, after⟩ <;> rfl

theorem exec_program_of_config_error {reason : LoadError} (hparse : Invocation.parse line = .ok i)
    (hconfig : i.config m = .error reason) :
    (Run.program line).exec m =
      if reason.isUsage then (Run.stop (.error none (.noConfiguration reason))).exec m
      else (.error (.load reason), m) := by
  unfold Run.program
  rw [hparse]
  dsimp only
  rw [exec_bind_ok (exec_get m), hconfig]
  dsimp only
  by_cases husage : reason.isUsage = true
  · rw [if_pos husage, if_pos husage]
  · rw [if_neg husage, if_neg husage]
    rfl

end HotPath
