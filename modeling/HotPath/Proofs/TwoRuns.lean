import Mathlib
import HotPath.FileSystem.Edit

/-!
# Two runs of one action

An action on a state respects a relation between states if, run from related states, it gives the
same result and leaves related states (`Respects`). The rules follow the way actions are put
together, so only an action that looks at the state itself needs an argument (`respects_get_bind`).
-/

namespace HotPath

variable {ε σ α β : Type} {R : σ → σ → Prop}

/-- Two runs have the same result and leave related states. -/
structure Agree (R : σ → σ → Prop) (x y : Except ε α × σ) : Prop where
  result : y.1 = x.1
  state : R x.2 y.2

/-- Two results are the same error, or related values. -/
inductive Matching (R : σ → σ → Prop) : Except ε σ → Except ε σ → Prop where
  | error (e : ε) : Matching R (.error e) (.error e)
  | ok {s s' : σ} : R s s' → Matching R (.ok s) (.ok s')

/-- From related states, the action gives the same result and leaves related states. -/
def Respects (R : σ → σ → Prop) (action : ExceptT ε (StateM σ) α) : Prop :=
  ∀ s s', R s s' → Agree R (action.run.run s) (action.run.run s')

theorem respects_pure (a : α) : Respects R (pure a : ExceptT ε (StateM σ) α) :=
  fun _ _ h => ⟨rfl, h⟩

theorem respects_throw (e : ε) : Respects R (throw e : ExceptT ε (StateM σ) α) :=
  fun _ _ h => ⟨rfl, h⟩

variable {action : ExceptT ε (StateM σ) α} {s : σ}

theorem run_bind_ok {next : α → ExceptT ε (StateM σ) β} {a : α} {t : σ}
    (h : action.run.run s = (.ok a, t)) : (action >>= next).run.run s = (next a).run.run t := by
  rw [ExceptT.run_bind, StateT.run_bind, h]
  rfl

theorem run_bind_error {next : α → ExceptT ε (StateM σ) β} {e : ε} {t : σ}
    (h : action.run.run s = (.error e, t)) : (action >>= next).run.run s = (.error e, t) := by
  rw [ExceptT.run_bind, StateT.run_bind, h]
  rfl

theorem run_get_bind (next : σ → ExceptT ε (StateM σ) α) (s : σ) :
    (get >>= next).run.run s = (next s).run.run s := rfl

theorem run_tryCatch_ok {handler : ε → ExceptT ε (StateM σ) α} {a : α} {t : σ}
    (h : action.run.run s = (.ok a, t)) : (tryCatch action handler).run.run s = (.ok a, t) := by
  rw [ExceptT.run_tryCatch, StateT.run_bind, h]
  rfl

theorem run_tryCatch_error {handler : ε → ExceptT ε (StateM σ) α} {e : ε} {t : σ}
    (h : action.run.run s = (.error e, t)) :
    (tryCatch action handler).run.run s = (handler e).run.run t := by
  rw [ExceptT.run_tryCatch, StateT.run_bind, h]
  rfl

/-- What comes next has to respect the relation only for the results that there are. -/
theorem Respects.bind_of_mem {next : α → ExceptT ε (StateM σ) β} (h : Respects R action)
    (hnext : ∀ s a t, action.run.run s = (.ok a, t) → Respects R (next a)) :
    Respects R (action >>= next) := by
  intro s s' hs
  obtain ⟨hresult, hstate⟩ := h s s' hs
  have hnext := hnext s
  cases hrun : action.run.run s with
  | mk result t =>
    cases hrun' : action.run.run s' with
    | mk result' t' =>
      rw [hrun, hrun'] at hresult hstate
      obtain rfl : result' = result := hresult
      cases result' with
      | error e =>
        rw [run_bind_error hrun, run_bind_error hrun']
        exact ⟨rfl, hstate⟩
      | ok a =>
        rw [run_bind_ok hrun, run_bind_ok hrun']
        exact hnext a t hrun t t' hstate

theorem Respects.bind {next : α → ExceptT ε (StateM σ) β} (h : Respects R action)
    (hnext : ∀ a, Respects R (next a)) : Respects R (action >>= next) :=
  h.bind_of_mem fun _ a _ _ => hnext a

theorem Respects.catching {handler : ε → ExceptT ε (StateM σ) α} (h : Respects R action)
    (hhandler : ∀ e, Respects R (handler e)) : Respects R (tryCatch action handler) := by
  intro s s' hs
  obtain ⟨hresult, hstate⟩ := h s s' hs
  cases hrun : action.run.run s with
  | mk result t =>
    cases hrun' : action.run.run s' with
    | mk result' t' =>
      rw [hrun, hrun'] at hresult hstate
      obtain rfl : result' = result := hresult
      cases result' with
      | error e =>
        rw [run_tryCatch_error hrun, run_tryCatch_error hrun']
        exact hhandler e t t' hstate
      | ok a =>
        rw [run_tryCatch_ok hrun, run_tryCatch_ok hrun']
        exact ⟨rfl, hstate⟩

/-- An action that looks at the state may depend on it as long as related states make no
difference. -/
theorem respects_get_bind {next : σ → ExceptT ε (StateM σ) α}
    (h : ∀ s s', R s s' → Agree R ((next s).run.run s) ((next s').run.run s')) :
    Respects R (get >>= next) := h

theorem Respects.forM {f : α → ExceptT ε (StateM σ) PUnit} {l : List α}
    (h : ∀ a ∈ l, Respects R (f a)) : Respects R (l.forM f) := by
  induction l with
  | nil => exact respects_pure _
  | cons a l ih =>
    refine (h a List.mem_cons_self).bind fun _ => ?_
    exact ih fun b hb => h b (List.mem_cons_of_mem a hb)

namespace FileSystem.Edit

/-! ## Steps that change files -/

theorem run_step (p : Path) (change : View → Except Cause View) (v : View) :
    (step p change).run.run v =
      match change v with
      | .ok v' => (.ok (), v')
      | .error cause => (.error ⟨cause, p.text⟩, v) := by
  rw [step, run_get_bind]
  cases change v <;> rfl

theorem agree_step {S : View → View → Prop} {v v' : View} (hv : S v v') {p : Path}
    {change : View → Except Cause View} (h : Matching S (change v) (change v')) :
    Agree S ((step p change).run.run v) ((step p change).run.run v') := by
  rw [run_step, run_step]
  generalize change v = x at h
  generalize change v' = y at h
  cases h with
  | error cause => exact ⟨rfl, hv⟩
  | ok hw => exact ⟨rfl, hw⟩

end FileSystem.Edit

end HotPath
