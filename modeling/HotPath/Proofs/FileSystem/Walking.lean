import Mathlib
import HotPath.FileSystem.Walk

/-!
# Walks that arrive

What a walk can do on its way, one case for each kind of step (`Walks`). A walk gives a place
exactly if it arrives there in this sense (`walk_eq_ok_iff`), so whatever holds along all walks is
shown by an induction on their steps.
-/

namespace HotPath.FileSystem

/-- The step names an entry of the directory at `here`, be it there or not. -/
structure NamesEntry (here : Place) (step : String) : Prop where
  ne_dot : step ≠ "."
  ne_empty : step ≠ ""
  ne_up : step ≠ ".."
  present : here.lost = 0
  short : step.utf8ByteSize ≤ maxNameBytes

/-- A walk for this purpose may go on at an entry with the steps `rest`. -/
def GoesOn (purpose : Purpose) (rest : List String) : Prop := ¬ (purpose = .make ∧ rest = [""])

/-- The walk from `here` along `steps`, following at most `links` links, arrives at a place. -/
inductive Walks (t : Tree) (purpose : Purpose) : Nat → Place → List String → Place → Prop where
  | done {links : Nat} {here : Place} : Walks t purpose links here [] here
  | stay {links : Nat} {here spot : Place} {step : String} {rest : List String} :
      t.at? here = some .directory → step = "." ∨ step = "" →
      Walks t purpose links here rest spot → Walks t purpose links here (step :: rest) spot
  | up {links : Nat} {here spot : Place} {rest : List String} :
      t.at? here = some .directory → Walks t purpose links here.up rest spot →
      Walks t purpose links here (".." :: rest) spot
  | fresh {links : Nat} {here : Place} {step : String} :
      t.at? here = some .directory → NamesEntry here step →
      t.get? (here.address ++ [step]) = none →
      Walks t purpose links here [step] ⟨here.address ++ [step], 0⟩
  | atLink {links : Nat} {here : Place} {step target : String} :
      t.at? here = some .directory → NamesEntry here step →
      t.get? (here.address ++ [step]) = some (.link target) → purpose = .findLink →
      Walks t purpose links here [step] ⟨here.address ++ [step], 0⟩
  | through {links : Nat} {here spot : Place} {step target : String} {rest : List String} :
      t.at? here = some .directory → NamesEntry here step → GoesOn purpose rest →
      t.get? (here.address ++ [step]) = some (.link target) →
      ¬ (rest = [] ∧ purpose = .findLink) →
      Walks t purpose links (if startsAtTop target then ⟨[], 0⟩ else here)
        (stepsOf target ++ rest) spot →
      Walks t purpose (links + 1) here (step :: rest) spot
  | enter {links : Nat} {here spot : Place} {step : String} {rest : List String} {e : Entry} :
      t.at? here = some .directory → NamesEntry here step → GoesOn purpose rest →
      t.get? (here.address ++ [step]) = some e → e.isLink = false →
      Walks t purpose links ⟨here.address ++ [step], 0⟩ rest spot →
      Walks t purpose links here (step :: rest) spot

variable {t : Tree} {purpose : Purpose} {links : Nat} {here spot : Place} {steps : List String}

theorem namesEntry_of {step : String} (hname : ¬ (step = "." || step = "") = true)
    (hup : ¬ step = "..") (hlost : ¬ here.lost ≠ 0) (hshort : ¬ maxNameBytes < step.utf8ByteSize) :
    NamesEntry here step := by
  simp only [Bool.or_eq_true, decide_eq_true_eq, not_or] at hname
  exact ⟨hname.1, hname.2, hup, not_not.mp hlost, not_lt.mp hshort⟩

theorem goesOn_of {rest : List String} (h : ¬ (purpose = .make && rest = [""]) = true) :
    GoesOn purpose rest := by
  simpa [GoesOn] using h

theorem walks_of_walk (h : walk t purpose links here steps = .ok spot) :
    Walks t purpose links here steps spot := by
  fun_induction walk t purpose links here steps
  case case1 =>
    cases h
    exact .done
  case case5 hdir hstep ih =>
    simp only [Bool.or_eq_true, decide_eq_true_eq] at hstep
    exact .stay hdir hstep (ih h)
  case case6 hdir _ ih => exact .up hdir (ih h)
  case case10 hdir hname hup hlost hshort _ hnone _ =>
    cases h
    exact .fresh hdir (namesEntry_of hname hup hlost hshort) hnone
  case case12 hdir hname hup _ hlost hshort _ _ hlink hlast =>
    cases h
    simp only [Bool.and_eq_true, decide_eq_true_eq] at hlast
    obtain ⟨rfl, hpurpose⟩ := hlast
    exact .atLink hdir (namesEntry_of hname hup hlost hshort) hlink hpurpose
  case case14 hdir hname hup hmake hlost hshort _ _ hlink hlast _ ih =>
    simp only [Bool.and_eq_true, decide_eq_true_eq] at hlast
    exact .through hdir (namesEntry_of hname hup hlost hshort) (goesOn_of hmake) hlink hlast (ih h)
  case case15 hdir hname hup hmake hlost hshort _ _ _ hfile ih =>
    exact .enter hdir (namesEntry_of hname hup hlost hshort) (goesOn_of hmake) hfile rfl (ih h)
  case case16 hdir hname hup hmake hlost hshort _ hdirectory ih =>
    exact .enter hdir (namesEntry_of hname hup hlost hshort) (goesOn_of hmake) hdirectory rfl
      (ih h)
  all_goals cases h

/-- The first test of a walk at an entry. -/
theorem walk_cons {step : String} {rest : List String} (hdir : t.at? here = some .directory)
    (hstep : NamesEntry here step) (hgoes : GoesOn purpose rest) :
    walk t purpose links here (step :: rest) =
      match t.get? (here.address ++ [step]) with
      | none => if rest = [] then .ok ⟨here.address ++ [step], 0⟩ else .error .notFound
      | some (.link target) =>
        if rest = [] && purpose = .findLink then .ok ⟨here.address ++ [step], 0⟩
        else match links with
          | 0 => .error .tooManyLinks
          | links + 1 =>
            walk t purpose links (if startsAtTop target then ⟨[], 0⟩ else here)
              (stepsOf target ++ rest)
      | some (.file _ _) | some .directory =>
        walk t purpose links ⟨here.address ++ [step], 0⟩ rest := by
  obtain ⟨hdot, hempty, hup, hlost, hshort⟩ := hstep
  have hmake : ¬ (purpose = .make && rest = [""]) = true := by simpa [GoesOn] using hgoes
  rw [walk, hdir]
  dsimp only
  rw [if_neg (by simp [hdot, hempty]), if_neg hup, if_neg hmake, if_neg (by simp [hlost])]
  exact if_neg (by omega)

theorem walk_of_walks (h : Walks t purpose links here steps spot) :
    walk t purpose links here steps = .ok spot := by
  induction h with
  | done => rw [walk]
  | stay hdir hstep _ ih =>
    rw [walk, hdir]
    dsimp only
    rw [if_pos (by simpa using hstep), ih]
  | up hdir _ ih =>
    rw [walk, hdir]
    dsimp only
    rw [if_neg (by decide), if_pos rfl, ih]
  | fresh hdir hstep hnone =>
    rw [walk_cons hdir hstep (by simp [GoesOn]), hnone]
    rfl
  | atLink hdir hstep hlink hpurpose =>
    rw [walk_cons hdir hstep (by simp [GoesOn]), hlink]
    simp [hpurpose]
  | through hdir hstep hgoes hlink hlast _ ih =>
    rw [walk_cons hdir hstep hgoes, hlink]
    dsimp only
    rw [if_neg (by simpa using hlast), ih]
  | @enter _ _ _ _ _ e hdir hstep hgoes hentry hkind _ ih =>
    rw [walk_cons hdir hstep hgoes, hentry]
    cases e with
    | file => exact ih
    | link => cases hkind
    | directory => exact ih

/-- A walk gives a place exactly if it arrives there. -/
theorem walk_eq_ok_iff :
    walk t purpose links here steps = .ok spot ↔ Walks t purpose links here steps spot :=
  ⟨walks_of_walk, walk_of_walks⟩

end HotPath.FileSystem
