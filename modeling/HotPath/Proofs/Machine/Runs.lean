import Mathlib
import HotPath.Machine

/-!
# Running actions

An action turns a machine into a result, or a fault, and the machine that is left (`Run.exec`). The
rules below run an action from the front; the machine that is left is there in both cases. What an
action does that changes one file is read off the view (`exec_writeFile`, `exec_deleteFile`).
-/

namespace HotPath

/-- A machine with nothing but files: no variable is set, and every tool passes. -/
def Machine.bare (v : FileSystem.View) : Machine where
  view := v
  environment := ⟨[], [], none⟩
  process := 1
  refused := fun _ => false
  replies := []
  calls := []
  out := ""
  err := ""

end HotPath

namespace HotPath.Run

open FileSystem

variable {α β ε : Type}

/-- The result of an action on a machine, and the machine that is left. -/
def exec (action : Run α) (m : Machine) : Except Fault α × Machine := (ExceptT.run action).run m

variable {action : Run α} {m m' : Machine}

@[simp] theorem exec_pure (a : α) (m : Machine) : (pure a : Run α).exec m = (.ok a, m) := rfl

@[simp] theorem exec_get (m : Machine) : (get : Run Machine).exec m = (.ok m, m) := rfl

@[simp] theorem exec_set (m' m : Machine) : (set m' : Run Unit).exec m = (.ok (), m') := rfl

@[simp] theorem exec_modify (f : Machine → Machine) (m : Machine) :
    (modify f : Run Unit).exec m = (.ok (), f m) := rfl

theorem exec_bind (action : Run α) (next : α → Run β) (m : Machine) :
    (action >>= next).exec m =
      match action.exec m with
      | (.ok a, m') => (next a).exec m'
      | (.error fault, m') => (.error fault, m') := by
  rw [exec, exec, ExceptT.run_bind, StateT.run_bind]
  rcases (ExceptT.run action).run m with ⟨x, m'⟩
  cases x with
  | error fault => rfl
  | ok a => rfl

theorem exec_bind_ok {next : α → Run β} {a : α} (h : action.exec m = (.ok a, m')) :
    (action >>= next).exec m = (next a).exec m' := by
  rw [exec_bind, h]

theorem exec_bind_error {next : α → Run β} {fault : Fault}
    (h : action.exec m = (.error fault, m')) :
    (action >>= next).exec m = (.error fault, m') := by
  rw [exec_bind, h]

theorem exec_tryCatch (action : Run α) (handler : Fault → Run α) (m : Machine) :
    (tryCatch action handler).exec m =
      match action.exec m with
      | (.ok a, m') => (.ok a, m')
      | (.error fault, m') => (handler fault).exec m' := by
  rw [exec, exec, ExceptT.run_tryCatch, StateT.run_bind]
  rcases (ExceptT.run action).run m with ⟨x, m'⟩
  cases x with
  | error fault => rfl
  | ok a => rfl

theorem exec_lift (fault : ε → Fault) (x : Except ε α) (m : Machine) :
    (lift fault x).exec m = (x.mapError fault, m) := by
  cases x with
  | error e => rfl
  | ok a => rfl

/-! ## Files -/

theorem exec_writeFile (p : Path) (content : Bytes) (m : Machine) :
    (writeFile p content).exec m =
      if hasNul p then (.error .nulCharacter, m)
      else match m.view.write p content with
        | .ok view => (.ok (), { m with view })
        | .error cause => (.error (.file ⟨cause, p.text⟩), m) := by
  unfold writeFile
  by_cases hp : hasNul p = true
  · simp only [hp, if_true]
    rfl
  · simp only [hp, Bool.false_eq_true, if_false, exec_bind, exec_get]
    cases m.view.write p content with
    | ok view => rfl
    | error cause => rfl

theorem exec_deleteFile (p : Path) (m : Machine) :
    (deleteFile p).exec m =
      if m.refused p then (.error (.file ⟨.permissionDenied, p.text⟩), m)
      else match m.view.unlink p with
        | .ok view => (.ok (), { m with view })
        | .error cause => (.error (.file ⟨cause, p.text⟩), m) := by
  unfold deleteFile
  rw [exec_bind_ok (exec_get m)]
  by_cases hrefused : m.refused p = true
  · simp only [hrefused, if_true]
    rfl
  · simp only [hrefused, Bool.false_eq_true, if_false]
    cases m.view.unlink p with
    | ok view => rfl
    | error cause => rfl

end HotPath.Run
