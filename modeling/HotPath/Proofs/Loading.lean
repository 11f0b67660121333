import HotPath.Config
import HotPath.Proofs.Results

/-!
# Loaded configurations

Loading takes one field after the other from a request. What a loaded configuration answers to is
stated once (`load_eq_ok_iff`), and so is what a request lacks that none is loaded for
(`lacks_of_load`).
-/

namespace HotPath

open FileSystem

/-- Each field of the configuration `c` is what the request `r` asks for. -/
structure Config.AnswersTo (v : View) (e : Environment) (vars : Variables) (r : Request)
    (c : Config) : Prop where
  asks : r.workDir ≠ .empty
  workDir : findWorkDir v e r.workDir.value? = .ok c.workDir
  binary : chooseBinary v vars r.binary c.workDir = .ok c.binary
  samplingArgs : argumentsOf r.samplingArgs ["1000"] = .ok c.samplingArgs
  instrumentationArgs : argumentsOf r.instrumentationArgs [] = .ok c.instrumentationArgs
  rendererArgs : argumentsOf r.rendererArgs [] = .ok c.rendererArgs
  annotateArgs : argumentsOf r.annotateArgs [] = .ok c.annotateArgs
  sourceDir : chooseSourceDir r.sourceDir "src" = .ok c.sourceDir
  topCount : chooseTopCount r.topCount 10 = .ok c.topCount
  others : c = { workDir := c.workDir, binary := c.binary, samplingArgs := c.samplingArgs,
                 instrumentationArgs := c.instrumentationArgs, rendererArgs := c.rendererArgs,
                 annotateArgs := c.annotateArgs, sourceDir := c.sourceDir, topCount := c.topCount,
                 tools := chooseTools (fun t => (r.tools t).value?) vars }

theorem answersTo_of_load {v : View} {e : Environment} {vars : Variables} {r : Request}
    {c : Config} (h : Config.load v e vars r = .ok c) : c.AnswersTo v e vars r := by
  unfold Config.load at h
  by_cases hr : r.workDir = .empty
  · rw [if_pos hr] at h
    cases h
  rw [if_neg hr] at h
  obtain ⟨workDir, hworkDir, h⟩ := bind_eq_ok_iff.mp h
  obtain ⟨binary, hbinary, h⟩ := bind_eq_ok_iff.mp h
  obtain ⟨samplingArgs, hsampling, h⟩ := bind_eq_ok_iff.mp h
  obtain ⟨instrumentationArgs, hinstrumentation, h⟩ := bind_eq_ok_iff.mp h
  obtain ⟨rendererArgs, hrenderer, h⟩ := bind_eq_ok_iff.mp h
  obtain ⟨annotateArgs, hannotate, h⟩ := bind_eq_ok_iff.mp h
  obtain ⟨sourceDir, hsourceDir, h⟩ := bind_eq_ok_iff.mp h
  obtain ⟨topCount, htopCount, h⟩ := bind_eq_ok_iff.mp h
  cases h
  exact ⟨hr, mapError_eq_ok_iff.mp hworkDir, mapError_eq_ok_iff.mp hbinary, hsampling,
    hinstrumentation, hrenderer, hannotate, hsourceDir, htopCount, rfl⟩

/-- A configuration is loaded exactly if each of its fields is what the request asks for. -/
theorem load_eq_ok_iff {v : View} {e : Environment} {vars : Variables} {r : Request} {c : Config} :
    Config.load v e vars r = .ok c ↔ c.AnswersTo v e vars r := by
  refine ⟨answersTo_of_load, fun h => ?_⟩
  obtain ⟨hasks, hworkDir, hbinary, hsampling, hinstrumentation, hrenderer, hannotate, hsourceDir,
    htopCount, hothers⟩ := h
  unfold Config.load
  rw [if_neg hasks]
  refine bind_eq_ok_iff.mpr ⟨c.workDir, mapError_eq_ok_iff.mpr hworkDir, ?_⟩
  refine bind_eq_ok_iff.mpr ⟨c.binary, mapError_eq_ok_iff.mpr hbinary, ?_⟩
  refine bind_eq_ok_iff.mpr ⟨c.samplingArgs, hsampling, ?_⟩
  refine bind_eq_ok_iff.mpr ⟨c.instrumentationArgs, hinstrumentation, ?_⟩
  refine bind_eq_ok_iff.mpr ⟨c.rendererArgs, hrenderer, ?_⟩
  refine bind_eq_ok_iff.mpr ⟨c.annotateArgs, hannotate, ?_⟩
  refine bind_eq_ok_iff.mpr ⟨c.sourceDir, hsourceDir, ?_⟩
  refine bind_eq_ok_iff.mpr ⟨c.topCount, htopCount, ?_⟩
  exact congrArg Except.ok hothers.symm

/-- What is wrong with the request `r` if no configuration is loaded for the reason. -/
inductive Request.Lacks (v : View) (e : Environment) (vars : Variables) (r : Request) :
    LoadError → Prop where
  | workDirValue : r.workDir = .empty → Lacks v e vars r (.noValue .workDir)
  | workDir {reason : WorkDirError} :
      findWorkDir v e r.workDir.value? = .error reason → Lacks v e vars r (.workDir reason)
  | manifest {workDir : Path} {reason : ManifestError} :
      findWorkDir v e r.workDir.value? = .ok workDir →
        chooseBinary v vars r.binary workDir = .error reason → Lacks v e vars r (.manifest reason)
  | argumentsValue :
      .empty ∈ [r.samplingArgs, r.instrumentationArgs, r.rendererArgs, r.annotateArgs] →
        Lacks v e vars r (.noValue .arguments)
  | arguments {line : String} {reason : Shell.SplitError} :
      .value line ∈ [r.samplingArgs, r.instrumentationArgs, r.rendererArgs, r.annotateArgs] →
        Shell.split line = .error reason → Lacks v e vars r (.arguments reason)
  | sourceDirValue : r.sourceDir = .empty → Lacks v e vars r (.noValue .sourceDir)
  | sourceDir {text : String} {reason : SourceDirError} :
      r.sourceDir = .value text → plainSourceDir text = .error reason →
        Lacks v e vars r (.sourceDir reason)
  | topCountValue : r.topCount = .empty → Lacks v e vars r (.noValue .topCount)
  | topCount {n : Int} :
      r.topCount = .value n → n < 1 → Lacks v e vars r (.topCountTooSmall n)

section Lacks

variable {v : View} {e : Environment} {vars : Variables} {r : Request} {reason : LoadError}

theorem lacks_of_argumentsOf {line : Setting String} {default : List String}
    (hmem : line ∈ [r.samplingArgs, r.instrumentationArgs, r.rendererArgs, r.annotateArgs])
    (h : argumentsOf line default = .error reason) : r.Lacks v e vars reason := by
  cases line with
  | missing => cases h
  | empty =>
    cases h
    exact .argumentsValue hmem
  | value text =>
    obtain ⟨problem, hsplit, rfl⟩ := mapError_eq_error_iff.mp h
    exact .arguments hmem hsplit

theorem lacks_of_chooseSourceDir {default : String}
    (h : chooseSourceDir r.sourceDir default = .error reason) : r.Lacks v e vars reason := by
  cases hasked : r.sourceDir with
  | missing =>
    rw [hasked] at h
    cases h
  | empty =>
    rw [hasked] at h
    cases h
    exact .sourceDirValue hasked
  | value text =>
    rw [hasked, chooseSourceDir] at h
    obtain ⟨problem, hplain, rfl⟩ := mapError_eq_error_iff.mp h
    exact .sourceDir hasked hplain

theorem lacks_of_chooseTopCount {default : Int}
    (h : chooseTopCount r.topCount default = .error reason) : r.Lacks v e vars reason := by
  cases hasked : r.topCount with
  | missing =>
    rw [hasked] at h
    cases h
  | empty =>
    rw [hasked] at h
    cases h
    exact .topCountValue hasked
  | value n =>
    rw [hasked, chooseTopCount] at h
    split at h
    · rename_i hsmall
      cases h
      exact .topCount hasked hsmall
    · cases h

theorem lacks_of_load (h : Config.load v e vars r = .error reason) : r.Lacks v e vars reason := by
  unfold Config.load at h
  by_cases hr : r.workDir = .empty
  · rw [if_pos hr] at h
    cases h
    exact .workDirValue hr
  rw [if_neg hr] at h
  rcases bind_eq_error_iff.mp h with hdir | ⟨workDir, hdir, h⟩
  · obtain ⟨problem, hproblem, rfl⟩ := mapError_eq_error_iff.mp hdir
    exact .workDir hproblem
  rcases bind_eq_error_iff.mp h with hbinary | ⟨binary, -, h⟩
  · obtain ⟨problem, hproblem, rfl⟩ := mapError_eq_error_iff.mp hbinary
    exact .manifest (mapError_eq_ok_iff.mp hdir) hproblem
  rcases bind_eq_error_iff.mp h with hline | ⟨_, -, h⟩
  · exact lacks_of_argumentsOf (by simp) hline
  rcases bind_eq_error_iff.mp h with hline | ⟨_, -, h⟩
  · exact lacks_of_argumentsOf (by simp) hline
  rcases bind_eq_error_iff.mp h with hline | ⟨_, -, h⟩
  · exact lacks_of_argumentsOf (by simp) hline
  rcases bind_eq_error_iff.mp h with hline | ⟨_, -, h⟩
  · exact lacks_of_argumentsOf (by simp) hline
  rcases bind_eq_error_iff.mp h with hsource | ⟨_, -, h⟩
  · exact lacks_of_chooseSourceDir hsource
  rcases bind_eq_error_iff.mp h with hcount | ⟨_, -, h⟩
  · exact lacks_of_chooseTopCount hcount
  · cases h

end Lacks

end HotPath
