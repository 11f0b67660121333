import HotPath.Proofs.Glob.Matching
import HotPath.Proofs.PartialDeletion

/-!
# Cleaning again after a failure

A cleaning fails at a search that fails, or at an output that is refused. In the first case nothing
is deleted, and cleaning again fails in the same way. In the second case the outputs in front of the
refused one are deleted, and cleaning again without refusals deletes those of the others that are
regular files still (`tidy_again`). Whether that is as good as a cleaning without refusals from the
start is decided by the links among the outputs; `not_forall_tidy_again` is a case where it is not.
-/

namespace HotPath

open FileSystem Glob

variable {v : View} {lost files : List Path} {workDir p : Path} {pattern : PathPattern}

/-! ## Cleaning -/

section Cleaning

variable {refused : Path → Bool} {rest : List Path}

theorem isFile_of_mem_filesFound (h : filesFound v workDir pattern = .ok files) :
    ∀ p ∈ files, v.isFile p = .ok true :=
  fun _ hp => ((mem_filesFound_iff h).mp hp).2.2

theorem afterCleaning_of_filesFound (h : filesFound v workDir pattern = .ok files) :
    v.afterCleaning refused workDir pattern = (v.without []).afterDiscards refused files := by
  rw [View.afterCleaning, h, View.without_nil]

/-- Without refusals, everything that is found is deleted. -/
theorem afterCleaning_permissive (h : filesFound v workDir pattern = .ok files) :
    v.afterCleaning (fun _ => false) workDir pattern = (.ok (), v.without files) := by
  rw [afterCleaning_of_filesFound h]
  exact View.afterDiscards_without nofun (isFile_of_mem_filesFound h) fun _ _ => Bool.false_ne_true

/-- A cleaning that fails has deleted the files in front of one that is refused. -/
theorem exists_of_afterCleaning_error (h : filesFound v workDir pattern = .ok files)
    {e : FileError} (hfails : (v.afterCleaning refused workDir pattern).1 = .error e) :
    ∃ lost p rest, files = lost ++ p :: rest ∧ refused p ∧
      (v.afterCleaning refused workDir pattern).2 = v.without lost := by
  rw [afterCleaning_of_filesFound h] at hfails ⊢
  obtain ⟨lost, p, rest, hfiles, hp, -, hafter⟩ := View.exists_of_afterDiscards_error
    (fun _ hp => absurd hp List.not_mem_nil) (isFile_of_mem_filesFound h) hfails
  rw [hafter]
  exact ⟨lost, p, rest, hfiles, hp, rfl⟩

/-- After some of the files have been deleted, a search finds those that are files still. -/
theorem exists_filesFound_without (h : filesFound v workDir pattern = .ok (lost ++ rest)) :
    ∃ left, filesFound (v.without lost) workDir pattern = .ok left ∧
      ∀ p, p ∈ lost ++ left ↔ p ∈ lost ++ (v.without lost).stillFiles rest := by
  have hfiles := isFile_of_mem_filesFound h
  have hnamed := View.losesNamed_without fun p hp => hfiles p (List.mem_append_left rest hp)
  obtain ⟨left, hleft⟩ := exists_filesFound hnamed.losesEnds h
  refine ⟨left, hleft, fun p => ?_⟩
  have hmem : p ∈ left ↔ p ∈ lost ++ rest ∧ (v.without lost).isFile p = .ok true := by
    rw [mem_filesFound_iff hleft, isOutput_iff_of_losesNamed hnamed, mem_filesFound_iff h]
  simp only [List.mem_append, hmem, View.mem_stillFiles_iff]
  tauto

/-- Cleaning again deletes the files that are left. -/
theorem afterCleaning_without (h : filesFound v workDir pattern = .ok (lost ++ rest)) :
    (v.without lost).afterCleaning (fun _ => false) workDir pattern =
      (.ok (), v.without (lost ++ (v.without lost).stillFiles rest)) := by
  have hfiles := isFile_of_mem_filesFound h
  obtain ⟨left, hleft, hmem⟩ := exists_filesFound_without h
  rw [View.afterCleaning, hleft, ← View.without_congr hmem]
  refine View.afterDiscards_without (fun p hp => hfiles p (List.mem_append_left rest hp))
    (fun p hp => ?_) fun _ _ => Bool.false_ne_true
  rcases List.mem_append.mp ((hmem p).mp (List.mem_append_right lost hp)) with hp | hp
  · exact hfiles p (List.mem_append_left rest hp)
  · exact hfiles p (List.mem_append_right lost (View.mem_stillFiles_iff.mp hp).1)

end Cleaning

/-- The machine where nothing is refused. -/
def Machine.permissive (m : Machine) : Machine := { m with refused := fun _ => false }

variable {m m' : Machine} {c : Config}

/-- What a cleaning returns and leaves, read off what becomes of the files. -/
theorem Run.exec_tidy_view (hparse : PathPattern.parse c.outputPattern = .ok pattern)
    {ending : Except FileError Unit}
    (h : m.view.afterCleaning m.refused c.workDir pattern = (ending, v)) :
    ∃ m', (tidy c).exec m = (.ok (if ending = .ok () then 0 else 1), m') ∧ m'.view = v := by
  have hview : (m.view.afterCleaning m.refused c.workDir pattern).2 = v := by rw [h]
  cases ending with
  | ok =>
    obtain ⟨err, hexec⟩ := exec_tidy_ok hparse (by rw [h])
    exact ⟨_, hexec, hview⟩
  | error e =>
    obtain ⟨err, hexec⟩ := exec_tidy_error hparse (e := e) (by rw [h])
    exact ⟨_, hexec, hview⟩

/-- Where a cleaning fails, something is in the way of it. -/
theorem Run.exists_of_tidy_fails (hparse : PathPattern.parse c.outputPattern = .ok pattern)
    (hfails : (tidy c).exec m = (.ok 1, m')) :
    (∃ e, (m.view.afterCleaning m.refused c.workDir pattern).1 = .error e) ∧
      m'.view = (m.view.afterCleaning m.refused c.workDir pattern).2 := by
  obtain ⟨ending, v, hclean⟩ :
      ∃ ending v, m.view.afterCleaning m.refused c.workDir pattern = (ending, v) := ⟨_, _, rfl⟩
  obtain ⟨m₁, hexec, hview⟩ := exec_tidy_view hparse hclean
  rw [hfails] at hexec
  rw [hclean]
  cases ending with
  | ok => cases hexec
  | error e =>
    cases hexec
    exact ⟨⟨e, rfl⟩, hview⟩

/-- Where the search fails, nothing is deleted. -/
theorem Run.exec_tidy_of_search_error (hparse : PathPattern.parse c.outputPattern = .ok pattern)
    {e : FileError} (hsearch : filesFound m.view c.workDir pattern = .error e) :
    ∃ m', (tidy c).exec m = (.ok 1, m') ∧ m'.view = m.view := by
  have hclean : m.view.afterCleaning m.refused c.workDir pattern = (.error e, m.view) := by
    rw [View.afterCleaning, hsearch]
  exact exec_tidy_view hparse hclean

/-- What a cleaning that failed has deleted, and what cleaning again comes to. -/
theorem Run.exec_tidy_again (hparse : PathPattern.parse c.outputPattern = .ok pattern)
    (hfiles : filesFound m.view c.workDir pattern = .ok files)
    (hfails : (tidy c).exec m = (.ok 1, m')) :
    ∃ lost p rest, files = lost ++ p :: rest ∧ m.refused p ∧
      m'.view = m.view.without lost ∧
      ∃ again full, (tidy c).exec m'.permissive = (.ok 0, again) ∧
        again.view = m.view.without (lost ++ m'.view.stillFiles (p :: rest)) ∧
        (tidy c).exec m.permissive = (.ok 0, full) ∧ full.view = m.view.without files ∧
        (again.view = full.view ↔ ∀ q ∈ p :: rest, m'.view.held? q ≠ none →
          m'.view.isFile q = .ok true) := by
  obtain ⟨⟨e, hending⟩, hview⟩ := exists_of_tidy_fails hparse hfails
  obtain ⟨lost, p, rest, rfl, hp, hlost⟩ := exists_of_afterCleaning_error hfiles hending
  rw [hlost] at hview
  have hagain := afterCleaning_without hfiles
  rw [← hview] at hagain
  obtain ⟨again, hexec, hagain⟩ := exec_tidy_view (m := m'.permissive) hparse hagain
  obtain ⟨full, hexec', hfull⟩ := exec_tidy_view (m := m.permissive) hparse
    (afterCleaning_permissive hfiles)
  refine ⟨lost, p, rest, rfl, hp, hview, again, full, hexec, hagain, hexec', hfull, ?_⟩
  have hisFile := isFile_of_mem_filesFound hfiles
  rw [hagain, hfull, hview]
  exact View.without_stillFiles_iff (fun q hq => hisFile q (List.mem_append_left _ hq))
    fun q hq => hisFile q (List.mem_append_right _ hq)

/-- **Cleaning again.** Where a cleaning fails because the search does, nothing has been deleted,
and cleaning again without refusals fails as well, as it would have from the start. Otherwise the
entries that some of the outputs name have been deleted, up to one that was refused. Cleaning again
without refusals then succeeds and deletes those of the other outputs that are files still. It ends
in the files that a cleaning without refusals would have reached from the start exactly if each of
them that is there is a file still, and no link to what has been deleted. -/
theorem tidy_again (hparse : PathPattern.parse c.outputPattern = .ok pattern)
    (hfails : (Run.tidy c).exec m = (.ok 1, m')) :
    match outputs m.view c.workDir c.outputPattern with
    | .error _ => m'.view = m.view ∧
        ∃ again full, (Run.tidy c).exec m'.permissive = (.ok 1, again) ∧ again.view = m.view ∧
          (Run.tidy c).exec m.permissive = (.ok 1, full) ∧ full.view = m.view
    | .ok files => ∃ lost p rest, files = lost ++ p :: rest ∧ m.refused p ∧
        m'.view = m.view.without lost ∧
        ∃ again full, (Run.tidy c).exec m'.permissive = (.ok 0, again) ∧
          again.view = m.view.without (lost ++ m'.view.stillFiles (p :: rest)) ∧
          (Run.tidy c).exec m.permissive = (.ok 0, full) ∧ full.view = m.view.without files ∧
          (again.view = full.view ↔ ∀ q ∈ p :: rest, m'.view.held? q ≠ none →
            m'.view.isFile q = .ok true) := by
  rw [outputs_of_parse m.view c.workDir hparse]
  cases hfiles : filesFound m.view c.workDir pattern with
  | error e =>
    obtain ⟨m₁, hexec, hview⟩ := Run.exec_tidy_of_search_error hparse hfiles
    cases hfails.symm.trans hexec
    have hagain := Run.exec_tidy_of_search_error (m := m'.permissive) hparse (hview ▸ hfiles)
    obtain ⟨again, hexec', hview'⟩ := hagain
    have hfull := Run.exec_tidy_of_search_error (m := m.permissive) hparse hfiles
    obtain ⟨full, hexec'', hview''⟩ := hfull
    exact ⟨hview, again, full, hexec', hview'.trans hview, hexec'', hview''⟩
  | ok files => exact Run.exec_tidy_again hparse hfiles hfails

/-! ## An output that is refused -/

def outputPath (name : String) : Path := ⟨.slash, ["w", name]⟩

def outputConfig : Config where
  workDir := ⟨.slash, ["w"]⟩
  binary := "p"
  outputPattern := "o*"

def outputPattern : PathPattern := ⟨[.covering [.only 'o', .star]], false⟩

theorem parse_outputPattern :
    PathPattern.parse outputConfig.outputPattern = .ok outputPattern := by
  have hpieces : piecesOf "o*".toList = [.only 'o', .star] := by cbv
  have hwild : ¬ Wildless "o*" := fun h => (h '*' (by decide)).1 rfl
  have hparse := parse_of_wild ⟨by decide, by decide⟩ (by decide) hwild
  rw [hpieces] at hparse
  exact hparse

/-- The machine where the second output is refused. -/
def refusing (v : View) : Machine := { Machine.bare v with refused := (· = outputPath "o2") }

theorem refused_refusing : (refusing v).refused p ↔ p = outputPath "o2" := decide_eq_true_iff

/-- Where the second output is refused, the first one has been deleted. -/
theorem split_refused {rest more : List Path}
    (h : outputPath "o1" :: outputPath "o2" :: more = lost ++ p :: rest)
    (hmore : outputPath "o2" ∉ more) (hp : (refusing v).refused p) :
    lost = [outputPath "o1"] ∧ p = outputPath "o2" ∧ rest = more := by
  have hname : p = outputPath "o2" := refused_refusing.mp hp
  rcases lost with _ | ⟨q, _ | ⟨q', lost⟩⟩
  · exact absurd ((List.cons.inj h).1.trans hname) (by decide)
  · simp only [List.cons_append, List.nil_append, List.cons.injEq] at h
    obtain ⟨rfl, rfl, rfl⟩ := h
    exact ⟨rfl, rfl, rfl⟩
  · simp only [List.cons_append, List.cons.injEq] at h
    obtain ⟨-, -, rfl⟩ := h
    exact absurd (by simp [hname]) hmore

theorem tidy_refusing_fails {more : List Path}
    (h : filesFound v outputConfig.workDir outputPattern =
      .ok (outputPath "o1" :: outputPath "o2" :: more)) :
    ∃ m', (Run.tidy outputConfig).exec (refusing v) = (.ok 1, m') := by
  have hclean : ((refusing v).view.afterCleaning (refusing v).refused outputConfig.workDir
      outputPattern).1 = .error ⟨.permissionDenied, (outputPath "o2").text⟩ := by
    have hfirst := isFile_of_mem_filesFound h (outputPath "o1") List.mem_cons_self
    have hone : (v.without []).afterDiscard (refusing v).refused (outputPath "o1") =
        .ok (v.without _) :=
      View.afterDiscard_without nofun hfirst (mt refused_refusing.mp (by decide))
    rw [show (refusing v).view = v from rfl, afterCleaning_of_filesFound h, View.afterDiscards,
      hone]
    exact congrArg Prod.fst (View.afterDiscards_of_refused (refused_refusing.mpr rfl))
  obtain ⟨err, hexec⟩ := Run.exec_tidy_error parse_outputPattern hclean
  exact ⟨_, hexec⟩

/-- A directory with two files and a link to the second of them. -/
def threeOutputs : View where
  tree := ⟨[(["w"], .directory), (["w", "o1"], .file [] false), (["w", "o2"], .file [] false),
    (["w", "o3"], .link "o2")], by decide⟩
  cwd := ⟨[], 0⟩
  rooted := by decide
  named := by decide +kernel
  inDirectory := rfl

theorem filesFound_threeOutputs :
    filesFound threeOutputs outputConfig.workDir outputPattern =
      .ok [outputPath "o1", outputPath "o2", outputPath "o3"] := by
  cbv

theorem tidy_again_threeOutputs :
    PathPattern.parse outputConfig.outputPattern = .ok outputPattern ∧
      ∃ m', (Run.tidy outputConfig).exec (refusing threeOutputs) = (.ok 1, m') ∧
        m'.view = threeOutputs.without [outputPath "o1"] ∧
        ∃ again full, (Run.tidy outputConfig).exec m'.permissive = (.ok 0, again) ∧
          (Run.tidy outputConfig).exec (refusing threeOutputs).permissive = (.ok 0, full) ∧
          again.view = full.view := by
  obtain ⟨m', hfails⟩ := tidy_refusing_fails filesFound_threeOutputs
  have hagain := tidy_again parse_outputPattern hfails
  rw [outputs_of_parse _ _ parse_outputPattern,
    show filesFound (refusing threeOutputs).view _ _ = _ from filesFound_threeOutputs] at hagain
  obtain ⟨lost, p, rest, hsplit, hp, hview, again, full, hexec, -, hexec', -, hiff⟩ := hagain
  obtain ⟨rfl, rfl, rfl⟩ := split_refused hsplit (by decide) hp
  refine ⟨parse_outputPattern, m', hfails, hview, again, full, hexec, hexec', ?_⟩
  rw [hiff, hview]
  intro q hq _
  simp only [List.mem_cons, List.not_mem_nil, or_false] at hq
  rcases hq with rfl | rfl <;> cbv

/-- A directory with a file and a link to it. -/
def twoOutputs : View where
  tree := ⟨[(["w"], .directory), (["w", "o1"], .file [] false), (["w", "o2"], .link "o1")],
    by decide⟩
  cwd := ⟨[], 0⟩
  rooted := by decide
  named := by decide +kernel
  inDirectory := rfl

theorem filesFound_twoOutputs :
    filesFound twoOutputs outputConfig.workDir outputPattern =
      .ok [outputPath "o1", outputPath "o2"] := by
  cbv

/-- A link to an output that has been deleted is no file any more, so cleaning again leaves it. -/
theorem not_forall_tidy_again :
    ¬ ∀ (c : Config) (m m' : Machine) (pattern : PathPattern),
      PathPattern.parse c.outputPattern = .ok pattern →
      (Run.tidy c).exec m = (.ok 1, m') →
      (∃ files lost, outputs m.view c.workDir c.outputPattern = .ok files ∧ lost <+: files ∧
        m'.view = m.view.without lost) ∧
      ∃ again full, (Run.tidy c).exec m'.permissive = (.ok 0, again) ∧
        (Run.tidy c).exec m.permissive = (.ok 0, full) ∧ again.view = full.view := by
  intro h
  obtain ⟨m', hfails⟩ := tidy_refusing_fails filesFound_twoOutputs
  obtain ⟨-, again, full, hexec, hexec', hsame⟩ := h _ _ _ _ parse_outputPattern hfails
  obtain ⟨lost, p, rest, hsplit, hp, hview, again', full', hagain, -, hfull, -, hiff⟩ :=
    Run.exec_tidy_again parse_outputPattern filesFound_twoOutputs hfails
  cases hexec.symm.trans hagain
  cases hexec'.symm.trans hfull
  obtain ⟨rfl, rfl, rfl⟩ := split_refused hsplit (by decide) hp
  rw [hiff, hview] at hsame
  have hheld : (twoOutputs.without [outputPath "o1"]).held? (outputPath "o2") =
      some (.link "o1") := by cbv
  have hfile : (twoOutputs.without [outputPath "o1"]).isFile (outputPath "o2") = .ok false := by
    cbv
  have hthere : (twoOutputs.without [outputPath "o1"]).held? (outputPath "o2") ≠ none := by
    rw [hheld]
    exact Option.some_ne_none _
  cases hfile.symm.trans (hsame _ List.mem_cons_self hthere)

end HotPath
