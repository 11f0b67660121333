import HotPath.Pipeline
import HotPath.Proofs.Glob.Search
import HotPath.Proofs.Machine.Runs
import HotPath.Proofs.PathOrder

/-!
# Finding and deleting outputs

The outputs are the regular files that the pattern leads to, in order and without repetitions
(`mem_filesFound_iff`). Deleting them changes nothing but the files, and ends at the first file that
is there and cannot be deleted (`exec_tidy_ok`, `exec_tidy_error`).
-/

namespace HotPath

open FileSystem Glob

/-! ## Outputs -/

/-- A regular file that the pattern leads to from the directory at `workDir`. -/
def IsOutput (v : View) (workDir : Path) (pattern : PathPattern) (p : Path) : Prop :=
  v.isDirectory workDir = .ok true ∧ Leads v pattern.directories pattern.steps workDir p ∧
    v.isFile p = .ok true

variable {v : View} {workDir : Path} {pattern : PathPattern} {files : List Path}

theorem outputs_of_parse {text : String} (v : View) (workDir : Path)
    (h : PathPattern.parse text = .ok pattern) :
    outputs v workDir text = (filesFound v workDir pattern).mapError .file := by
  rw [outputs, h]
  rfl

theorem exists_of_filesFound (h : filesFound v workDir pattern = .ok files) :
    ∃ found, search v v.isFile workDir pattern = .ok found ∧ files = found.mergeSort Path.le := by
  obtain ⟨found, hfound, rfl⟩ := map_eq_ok_iff.mp h
  exact ⟨found, hfound, rfl⟩

theorem mem_filesFound_iff (h : filesFound v workDir pattern = .ok files) {p : Path} :
    p ∈ files ↔ IsOutput v workDir pattern p := by
  obtain ⟨found, hfound, rfl⟩ := exists_of_filesFound h
  obtain ⟨there, hthere, hfound⟩ := bind_eq_ok_iff.mp hfound
  rw [List.mem_mergeSort, IsOutput, hthere]
  cases there with
  | true =>
    rw [mem_follow_iff hfound]
    simp
  | false =>
    cases hfound
    simp

theorem nodup_filesFound (h : filesFound v workDir pattern = .ok files) : files.Nodup := by
  obtain ⟨found, hfound, rfl⟩ := exists_of_filesFound h
  obtain ⟨there, -, hfound⟩ := bind_eq_ok_iff.mp hfound
  rw [(List.mergeSort_perm found Path.le).nodup_iff]
  cases there with
  | true => exact nodup_follow hfound
  | false =>
    cases hfound
    exact List.nodup_nil

theorem pairwise_filesFound (h : filesFound v workDir pattern = .ok files) :
    files.Pairwise fun p q => p.le q = true := by
  obtain ⟨found, -, rfl⟩ := exists_of_filesFound h
  exact Path.pairwise_mergeSort found

/-! ## Deleting them -/

namespace FileSystem.View

/-- The files after one of them has been deleted; one that is gone is no obstacle. -/
def afterDiscard (refused : Path → Bool) (p : Path) (v : View) : Except FileError View :=
  if refused p then .error ⟨.permissionDenied, p.text⟩
  else match v.unlink p with
    | .ok v' => .ok v'
    | .error .notFound => .ok v
    | .error cause => .error ⟨cause, p.text⟩

/-- The files after some of them have been deleted, up to the first that cannot be deleted. -/
def afterDiscards (refused : Path → Bool) : List Path → View → Except FileError Unit × View
  | [], v => (.ok (), v)
  | p :: paths, v =>
    match v.afterDiscard refused p with
    | .ok v' => afterDiscards refused paths v'
    | .error e => (.error e, v)

/-- The files after the outputs have been deleted, and what was in the way of that. -/
def afterCleaning (refused : Path → Bool) (workDir : Path) (pattern : PathPattern) (v : View) :
    Except FileError Unit × View :=
  match filesFound v workDir pattern with
  | .ok files => afterDiscards refused files v
  | .error e => (.error e, v)

end FileSystem.View

namespace Run

variable {m : Machine} {c : Config}

theorem exec_discard (p : Path) (m : Machine) :
    (discard p).exec m =
      match m.view.afterDiscard m.refused p with
      | .ok view => (.ok (), { m with view })
      | .error e => (.error (.file e), m) := by
  rw [discard, exec_tryCatch, exec_deleteFile, View.afterDiscard]
  by_cases hrefused : m.refused p = true
  · simp only [hrefused, if_true]
    rfl
  · simp only [hrefused, Bool.false_eq_true, if_false]
    cases m.view.unlink p with
    | ok view => rfl
    | error cause => cases cause <;> rfl

theorem exec_forM_discard (paths : List Path) (m : Machine) :
    (paths.forM discard).exec m =
      ((m.view.afterDiscards m.refused paths).1.mapError .file,
        { m with view := (m.view.afterDiscards m.refused paths).2 }) := by
  induction paths generalizing m with
  | nil => rfl
  | cons p paths ih =>
    have hdiscard := exec_discard p m
    rw [List.forM_eq_forM, List.forM_cons, View.afterDiscards]
    cases hone : m.view.afterDiscard m.refused p with
    | ok view =>
      rw [hone] at hdiscard
      rw [exec_bind_ok hdiscard]
      exact ih { m with view }
    | error e =>
      rw [hone] at hdiscard
      rw [exec_bind_error hdiscard]
      rfl

theorem exec_findOutputs_eq (workDir : Path) (text : String) (m : Machine) :
    (findOutputs workDir text).exec m =
      ((outputs m.view workDir text).mapError OutputsError.fault, m) := by
  unfold findOutputs
  rw [exec_bind_ok (exec_get m), exec_lift]

theorem exec_findOutputs (h : PathPattern.parse c.outputPattern = .ok pattern) (m : Machine) :
    (findOutputs c.workDir c.outputPattern).exec m =
      ((filesFound m.view c.workDir pattern).mapError .file, m) := by
  rw [exec_findOutputs_eq, outputs_of_parse m.view c.workDir h]
  cases filesFound m.view c.workDir pattern with
  | ok files => rfl
  | error e => rfl

theorem exec_discardOutputs_error {workDir : Path} {text : String} {e : OutputsError}
    (h : outputs m.view workDir text = .error e) :
    (discardOutputs workDir text).exec m = (.error e.fault, m) := by
  have hfind := exec_findOutputs_eq workDir text m
  rw [h] at hfind
  exact exec_bind_error hfind

theorem exec_discardOutputs_ok {workDir : Path} {text : String}
    (h : outputs m.view workDir text = .ok files) :
    (discardOutputs workDir text).exec m =
      ((m.view.afterDiscards m.refused files).1.map (fun _ => files) |>.mapError .file,
        { m with view := (m.view.afterDiscards m.refused files).2 }) := by
  have hfind := exec_findOutputs_eq workDir text m
  rw [h] at hfind
  unfold discardOutputs
  rw [exec_bind_ok hfind, exec_bind, exec_forM_discard]
  cases (m.view.afterDiscards m.refused files).1 with
  | ok => rfl
  | error e => rfl

theorem exec_discardOutputs (h : PathPattern.parse c.outputPattern = .ok pattern) (m : Machine) :
    ∃ files, (discardOutputs c.workDir c.outputPattern).exec m =
      ((m.view.afterCleaning m.refused c.workDir pattern).1.map (fun _ => files) |>.mapError .file,
        { m with view := (m.view.afterCleaning m.refused c.workDir pattern).2 }) := by
  have hfound := outputs_of_parse m.view c.workDir h
  unfold View.afterCleaning
  cases hfiles : filesFound m.view c.workDir pattern with
  | error e =>
    rw [hfiles] at hfound
    rw [exec_discardOutputs_error hfound]
    exact ⟨[], rfl⟩
  | ok files =>
    rw [hfiles] at hfound
    exact ⟨files, exec_discardOutputs_ok hfound⟩

theorem exec_tidy_ok (h : PathPattern.parse c.outputPattern = .ok pattern)
    (hclean : (m.view.afterCleaning m.refused c.workDir pattern).1 = .ok ()) :
    ∃ err, (tidy c).exec m =
      (.ok 0, { m with view := (m.view.afterCleaning m.refused c.workDir pattern).2, err }) := by
  obtain ⟨files, hdiscard⟩ := exec_discardOutputs h m
  rw [hclean] at hdiscard
  rw [tidy, exec_tryCatch, exec_bind_ok hdiscard]
  by_cases hnone : files = []
  · rw [if_pos hnone]
    exact ⟨_, rfl⟩
  · rw [if_neg hnone]
    exact ⟨_, rfl⟩

theorem exec_tidy_error (h : PathPattern.parse c.outputPattern = .ok pattern) {e : FileError}
    (hclean : (m.view.afterCleaning m.refused c.workDir pattern).1 = .error e) :
    ∃ err, (tidy c).exec m =
      (.ok 1, { m with view := (m.view.afterCleaning m.refused c.workDir pattern).2, err }) := by
  obtain ⟨files, hdiscard⟩ := exec_discardOutputs h m
  rw [hclean] at hdiscard
  rw [tidy, exec_tryCatch, exec_bind_error hdiscard]
  exact ⟨_, rfl⟩

end Run

end HotPath
