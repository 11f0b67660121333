import HotPath.FileSystem.Resolve
import HotPath.Proofs.Results

/-!
# Paths that cannot be resolved

Once its links are replaced and it is completed, a path is settled (`View.settle`,
`resolve_eq_bind`): `..` is taken away, and the path fails if it still runs in circles. So resolving
fails for one of three reasons (`cases_of_resolve_error`).
-/

namespace HotPath.FileSystem

variable {v : View}

/-- A path leads neither somewhere nor nowhere only if it is too long. -/
theorem stat_of_find_error {p : Path} {reason : FileError} (h : v.find p = .error reason) :
    v.stat .find p = .error .nameTooLong ∧ reason = ⟨.nameTooLong, p.text⟩ := by
  unfold View.find at h
  split at h
  · cases h
  · split at h
    · cases h
    · rename_i hstat
      exact ⟨hstat, (Except.error.inj h).symm⟩
    · cases h

/-- Replacing the links on a path fails only at a name that no file can have. -/
theorem eq_nulCharacter_of_expand {budget : Nat} {known : List (Path × Option Path)}
    {stack : List OpenLink} {here : Path} {rest : List String} {problem : ResolveError}
    (h : v.expand budget known stack here rest = .error problem) : problem = .nulCharacter := by
  fun_induction View.expand v budget known stack here rest
  case case1 | case8 | case9 => cases h
  case case5 =>
    cases h
    rfl
  case case2 ih | case3 ih | case4 ih | case6 ih | case7 ih | case10 ih => exact ih h

/-- The end of resolving: the path without links and without `..`, unless it still runs in
circles. -/
def View.settle (v : View) (full : Path) : Except ResolveError Path :=
  let resolved : Path := ⟨full.root, collapse full.names⟩
  if hasNul resolved then .error .nulCharacter
  else match v.stat .find resolved with
    | .error .tooManyLinks => .error (.linkLoop resolved.text)
    | _ => .ok resolved

theorem resolve_eq_bind (v : View) (p : Path) :
    v.resolve p =
      v.expand v.expandLimit [] [] ⟨if p.isAbsolute then .slash else .relative, []⟩ p.names >>=
        fun expanded => match expanded.isAbsolute, v.workingDirectory? with
          | true, _ => v.settle expanded
          | false, some cwd => v.settle (cwd.append expanded)
          | false, none => .error .noWorkingDirectory := by
  refine bind_congr fun expanded => ?_
  have hsettle (full : Path) : (do
      let resolved : Path := ⟨full.root, collapse full.names⟩
      if hasNul resolved then throw .nulCharacter
      match v.stat .find resolved with
      | .error .tooManyLinks => throw (.linkLoop resolved.text)
      | _ => return resolved) = v.settle full := by
    unfold View.settle
    by_cases hnul : hasNul ⟨full.root, collapse full.names⟩ = true
    · dsimp only
      rw [if_pos hnul, if_pos hnul]
      rfl
    · dsimp only
      rw [if_neg hnul, if_neg hnul]
      rfl
  rcases expanded.isAbsolute with _ | _
  · rcases v.workingDirectory? with _ | cwd
    · rfl
    · exact hsettle (cwd.append expanded)
  · exact hsettle expanded

theorem cases_of_settle_error {full : Path} {problem : ResolveError}
    (h : v.settle full = .error problem) :
    problem = .nulCharacter ∨ ∃ resolved, problem = .linkLoop resolved.text ∧
      v.stat .find resolved = .error .tooManyLinks := by
  unfold View.settle at h
  dsimp only at h
  split at h
  · cases h
    exact .inl rfl
  · split at h
    · rename_i hstat
      cases h
      exact .inr ⟨_, rfl, hstat⟩
    · cases h

/-- Why a path cannot be resolved. -/
theorem cases_of_resolve_error {p : Path} {problem : ResolveError}
    (h : v.resolve p = .error problem) :
    problem = .nulCharacter ∨
      (problem = .noWorkingDirectory ∧ v.workingDirectory? = none) ∨
      ∃ resolved, problem = .linkLoop resolved.text ∧
        v.stat .find resolved = .error .tooManyLinks := by
  rw [resolve_eq_bind] at h
  rcases bind_eq_error_iff.mp h with hexpand | ⟨expanded, -, h⟩
  · exact .inl (eq_nulCharacter_of_expand hexpand)
  split at h
  · exact (cases_of_settle_error h).imp_right .inr
  · exact (cases_of_settle_error h).imp_right .inr
  · rename_i hremoved
    cases h
    exact .inr (.inl ⟨rfl, hremoved⟩)

end HotPath.FileSystem
