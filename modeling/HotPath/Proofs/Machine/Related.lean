import HotPath.Proofs.Outputs
import HotPath.Proofs.Pipeline.Parts
import HotPath.Proofs.TwoRuns

/-!
# Machines that differ in their files

Two machines that differ in their files only, where these are related, and stay so whatever the
tools do that are started next (`Machine.Related`). A pipeline finds outputs, deletes them, and
writes the flame graph; apart from that it does not look at the files itself. So if these three
respect the relation, the whole pipeline gives the same result, prints the same and starts the same
tools on both machines (`respects_drawFlamegraph`, `respects_reportHotLines`).
-/

namespace HotPath

open FileSystem

variable {S : View → View → Prop}

/-- The machines are the same but for their files, which are related, and no tool that is started
next makes a difference to that. -/
structure Machine.Related (S : View → View → Prop) (m m' : Machine) : Prop where
  rest : m' = { m with view := m'.view }
  files : S m.view m'.view
  tools : ∀ r ∈ m.replies, Respects S (r.changes.forM Change.make)

theorem Machine.Related.withView {m m' : Machine} {u u' : View} (h : Related S m m')
    (hu : S u u') : Related S { m with view := u } { m' with view := u' } :=
  ⟨congrArg (fun m => { m with view := u' }) h.rest, hu, h.tools⟩

namespace Run

open Machine

variable {ε α : Type} {p : Path} {c : Config}

/-- It is enough to look at one machine with other files. -/
theorem respects_of_view {action : Run α}
    (h : ∀ m u, Related S m { m with view := u } →
      Agree (Related S) (action.exec m) (action.exec { m with view := u })) :
    Respects (Related S) action := by
  intro m m' hm
  have hagree := h m m'.view
  rw [← hm.rest] at hagree
  exact hagree hm

theorem respects_lift {R : Machine → Machine → Prop} (fault : ε → Fault) (x : Except ε α) :
    Respects R (lift fault x) := by
  cases x with
  | error e => exact respects_throw _
  | ok a => exact respects_pure a

theorem handling_respects {R : Machine → Machine → Prop} : Handling fun _ => Respects R where
  pure := respects_pure
  lift _ x := respects_lift _ x
  bind := Respects.bind
  throw := respects_throw
  catching := Respects.catching

theorem respects_printLine (s : String) : Respects (Related S) (printLine s) :=
  respects_of_view fun _ _ h => ⟨rfl, rfl, h.files, h.tools⟩

theorem respects_reportLine (s : String) : Respects (Related S) (reportLine s) :=
  respects_of_view fun _ _ h => ⟨rfl, rfl, h.files, h.tools⟩

/-! ## Files -/

theorem respects_writeFile {content : Bytes}
    (h : ∀ v v', S v v' → Matching S (v.write p content) (v'.write p content)) :
    Respects (Related S) (writeFile p content) := by
  apply respects_of_view
  intro m u hm
  rw [exec_writeFile, exec_writeFile]
  by_cases hnul : hasNul p = true
  · rw [if_pos hnul, if_pos hnul]
    exact ⟨rfl, hm⟩
  · rw [if_neg hnul, if_neg hnul]
    have hwrite := h _ _ hm.files
    dsimp only at hwrite ⊢
    generalize m.view.write p content = x at hwrite
    generalize u.write p content = y at hwrite
    cases hwrite with
    | error cause => exact ⟨rfl, hm⟩
    | ok hw => exact ⟨rfl, hm.withView hw⟩

theorem respects_deleteFile (h : ∀ v v', S v v' → Matching S (v.unlink p) (v'.unlink p)) :
    Respects (Related S) (deleteFile p) := by
  apply respects_of_view
  intro m u hm
  rw [exec_deleteFile, exec_deleteFile]
  by_cases hname : m.refused p = true
  · rw [if_pos hname, if_pos hname]
    exact ⟨rfl, hm⟩
  · rw [if_neg hname, if_neg hname]
    have hunlink := h _ _ hm.files
    dsimp only at hunlink ⊢
    generalize m.view.unlink p = x at hunlink
    generalize u.unlink p = y at hunlink
    cases hunlink with
    | error cause => exact ⟨rfl, hm⟩
    | ok hw => exact ⟨rfl, hm.withView hw⟩

theorem respects_findOutputs {pattern : String}
    (h : ∀ v v', S v v' → outputs v' p pattern = outputs v p pattern) :
    Respects (Related S) (findOutputs p pattern) := by
  apply respects_of_view
  intro m u hm
  rw [exec_findOutputs_eq, exec_findOutputs_eq]
  exact ⟨congrArg (Except.mapError OutputsError.fault) (h _ _ hm.files), hm⟩

/-- Only outputs are deleted. -/
theorem respects_discardOutputs {pattern : String}
    (hfind : Respects (Related S) (findOutputs p pattern))
    (hdelete : ∀ v files, outputs v p pattern = .ok files →
      ∀ q ∈ files, Respects (Related S) (deleteFile q)) :
    Respects (Related S) (discardOutputs p pattern) := by
  refine hfind.bind_of_mem fun m found after hfound => ?_
  have hexec := (exec_findOutputs_eq p pattern m).symm.trans hfound
  have houtputs := mapError_eq_ok_iff.mp (congrArg Prod.fst hexec)
  refine (Respects.forM fun q hq => ?_).bind fun _ => respects_pure found
  exact handling_respects.discard (hdelete m.view found houtputs q hq)

/-! ## Tools -/

/-- A tool does the same on both machines. -/
theorem respects_edit {changes : List Change} (h : Respects S (changes.forM Change.make)) :
    Respects (Related S) (edit changes) := by
  apply respects_of_view
  intro m u hm
  obtain ⟨hending, hview⟩ := h m.view u hm.files
  exact ⟨congrArg Except.ok hending, hm.withView hview⟩

theorem respects_start (call : Call) : Respects (Related S) (start call) := by
  apply respects_of_view
  intro m u hm
  have hchanges : Respects S ((m.replies.headD .silent).changes.forM Change.make) := by
    cases hreplies : m.replies with
    | nil => exact respects_pure ()
    | cons r replies => exact hm.tools r (by rw [hreplies]; exact List.mem_cons_self)
  have hnext : Related S
      { m with
        replies := m.replies.tail
        calls := m.calls ++ [call]
        shown := m.shown ++ [m.err] }
      { m with
        view := u
        replies := m.replies.tail
        calls := m.calls ++ [call]
        shown := m.shown ++ [m.err] } :=
    ⟨rfl, hm.files, fun r hr => hm.tools r (List.mem_of_mem_tail hr)⟩
  unfold start
  rw [exec_bind_ok (exec_get m), exec_bind_ok (exec_get { m with view := u })]
  dsimp only
  rw [exec_bind_ok (exec_set _ m), exec_bind_ok (exec_set _ { m with view := u })]
  refine (respects_edit hchanges).bind (fun ending => ?_) _ _ hnext
  cases ending with
  | ok => exact respects_pure _
  | error e => exact respects_pure _

theorem respects_perform (c : Config) (s : Stage) (outputs : List Path) (input : Option Bytes) :
    Respects (Related S) (perform c s outputs input) := by
  refine (respects_reportLine _).bind fun _ => (respects_start _).bind fun o => ?_
  cases o with
  | finished code output =>
    by_cases hcode : code ≠ 0
    · dsimp only
      rw [dif_pos hcode]
      exact respects_throw _
    · dsimp only
      rw [dif_neg hcode]
      exact respects_pure _
  | notFound | notExecutable | interrupted | badExecutable | broken => exact respects_throw _

/-! ## Pipelines -/

/-- The flame graph is drawn the same on both machines. -/
theorem respects_drawFlamegraph
    (hsave : ∀ graph, Respects (Related S) (saveFlamegraph c graph)) :
    Respects (Related S) (drawFlamegraph c) :=
  handling_respects.drawFlamegraph respects_reportLine (respects_perform c) hsave

/-- The hot lines are found the same on both machines. -/
theorem respects_reportHotLines
    (hfind : Respects (Related S) (findOutputs c.workDir c.outputPattern))
    (hdiscard : Respects (Related S) (discardOutputs c.workDir c.outputPattern))
    (format : String) : Respects (Related S) (reportHotLines c format) :=
  handling_respects.reportHotLines respects_reportLine (respects_perform c) hfind
    respects_printLine hdiscard format

end Run

end HotPath
