import HotPath.Proofs.Machine.Runs

/-!
# Properties of actions

Much of what is true of a pipeline is true because of the way it is put together. A property that
goes over from two actions to the one after the other is `Sequential`, and one that also goes over
from an action and its handlers is `Handling`; it then holds of a pipeline as soon as it holds of
what the pipeline does to the machine.

* `Leads`: whatever machine an action is run on, the one that it leaves stands in a relation to it.
  For a preorder this is such a property (`handling_leads`).
-/

namespace HotPath.Run

/-- A property that holds of an action that leaves the machine alone and does not end in the failure
of a stage, and of two actions one after the other. -/
structure Sequential (P : (α : Type) → Run α → Prop) : Prop where
  pure {α : Type} (a : α) : P α (Pure.pure a)
  lift {ε α : Type} {fault : ε → Fault} (hfault : ∀ e failure, fault e ≠ .stage failure)
    (x : Except ε α) : P α (Run.lift fault x)
  bind {α β : Type} {action : Run α} {next : α → Run β} (h : P α action)
    (hnext : ∀ a, P β (next a)) : P β (action >>= next)

/-- A property that also holds of an action that only fails, and of an action whose faults are
handled. -/
structure Handling (P : (α : Type) → Run α → Prop) : Prop extends Sequential P where
  throw {α : Type} (fault : Fault) : P α (MonadExcept.throw fault)
  catching {α : Type} {action : Run α} {handler : Fault → Run α} (h : P α action)
    (hhandler : ∀ fault, P α (handler fault)) : P α (tryCatch action handler)

variable {α β : Type}

theorem Sequential.forM {P : (α : Type) → Run α → Prop} (hP : Sequential P) {f : α → Run Unit}
    (h : ∀ a, P Unit (f a)) (l : List α) : P Unit (l.forM f) := by
  induction l with
  | nil => exact hP.pure ()
  | cons a l ih => exact hP.bind (h a) fun _ => ih

/-! ## Relations between machines -/

variable {R : Machine → Machine → Prop} [IsPreorder Machine R] {action : Run α}

/-- Whatever machine the action is run on, the machine that it leaves stands in the relation to
it. -/
def Leads (R : Machine → Machine → Prop) (action : Run α) : Prop := ∀ m, R m (action.exec m).2

theorem Leads.bind {next : α → Run β} (h : Leads R action) (hnext : ∀ a, Leads R (next a)) :
    Leads R (action >>= next) := by
  intro m
  have hfirst := h m
  rw [exec_bind]
  generalize action.exec m = ended at hfirst
  obtain ⟨result, first⟩ := ended
  cases result with
  | error fault => exact hfirst
  | ok a => exact trans_of R hfirst (hnext a first)

theorem Leads.catching {handler : Fault → Run α} (h : Leads R action)
    (hhandler : ∀ fault, Leads R (handler fault)) : Leads R (tryCatch action handler) := by
  intro m
  have hfirst := h m
  rw [exec_tryCatch]
  generalize action.exec m = ended at hfirst
  obtain ⟨result, first⟩ := ended
  cases result with
  | ok a => exact hfirst
  | error fault => exact trans_of R hfirst (hhandler fault first)

theorem handling_leads : Handling fun _ => Leads R where
  pure _ m := refl_of R m
  lift _ x m := by
    rw [exec_lift]
    exact refl_of R m
  bind := Leads.bind
  throw _ m := refl_of R m
  catching := Leads.catching

theorem leads_get : Leads R (get : Run Machine) := refl_of R

theorem leads_writeFile {p : Path} {content : Bytes}
    (h : ∀ m view, R m { m with view }) : Leads R (writeFile p content) := by
  intro m
  rw [exec_writeFile]
  split
  · exact refl_of R m
  · split
    · exact h m _
    · exact refl_of R m

theorem leads_deleteFile {p : Path} (h : ∀ m view, R m { m with view }) :
    Leads R (deleteFile p) := by
  intro m
  rw [exec_deleteFile]
  split
  · exact refl_of R m
  · split
    · exact h m _
    · exact refl_of R m

end HotPath.Run
