import HotPath.Proofs.Pipeline.Parts

/-!
# Who changes files

Most actions change no file themselves, and many start no tool. What an action may do to a machine
is a preorder between the machine that it is run on and the one that it leaves, so what a pipeline
may do is read off its parts.

* `Quiet`: no tool was started, and no file was changed.
* `ByTools`: the files are what the tools that were started have made of them.
* `NoCalls`: no tool was started, and nothing was taken from standard error.
-/

namespace HotPath

open FileSystem

theorem World.after_add (w : World) (j k : Nat) : w.after (j + k) = (w.after j).after k := by
  rw [World.after, Nat.add_comm, Function.iterate_add_apply]
  rfl

namespace Run

variable {α : Type} {action : Run α} {m m' : Machine}

theorem leads_findOutputs {R : Machine → Machine → Prop} [IsPreorder Machine R] {workDir : Path}
    {pattern : String} : Leads R (findOutputs workDir pattern) :=
  leads_get.bind fun _ => handling_leads.lift (fun e _ => by cases e <;> exact nofun) _

/-! ## Actions that change nothing -/

/-- Between two machines no tool was started, and no file was changed. -/
structure Quiet (m m' : Machine) : Prop where
  calls : m'.calls = m.calls
  world : m'.world = m.world

instance : IsPreorder Machine Quiet where
  refl _ := ⟨rfl, rfl⟩
  trans _ _ _ h h' := ⟨h'.calls.trans h.calls, h'.world.trans h.world⟩

theorem quiet_printLine (s : String) : Leads Quiet (printLine s) := fun _ => ⟨rfl, rfl⟩

theorem quiet_reportLine (s : String) : Leads Quiet (reportLine s) := fun _ => ⟨rfl, rfl⟩

theorem quiet_showReport (format : String) (lines : List Report.CostLine) :
    Leads Quiet (showReport format lines) :=
  handling_leads.showReport quiet_printLine format lines

theorem quiet_reportAnnotated (c : Config) (format : String) (annotated : Bytes) :
    Leads Quiet (reportAnnotated c format annotated) :=
  handling_leads.reportAnnotated quiet_printLine c format annotated

theorem quiet_reportChecks (checks : List Check) : Leads Quiet (reportChecks checks) :=
  handling_leads.reportChecks quiet_reportLine checks

/-! ## Actions that leave the files to their tools -/

/-- Between two machines some tools were started, and nobody else changed files. -/
def ByTools (m m' : Machine) : Prop :=
  ∃ calls, m'.calls = m.calls ++ calls ∧ m'.world = m.world.after calls.length

theorem byTools_of_quiet (h : Quiet m m') : ByTools m m' :=
  ⟨[], by rw [h.calls, List.append_nil], h.world⟩

instance : IsPreorder Machine ByTools where
  refl m := byTools_of_quiet (refl_of Quiet m)
  trans := by
    rintro m m' m'' ⟨calls, hcalls, hworld⟩ ⟨calls', hcalls', hworld'⟩
    refine ⟨calls ++ calls', ?_, ?_⟩
    · rw [hcalls', hcalls, List.append_assoc]
    · rw [hworld', hworld, List.length_append, World.after_add]

/-- However its tool ends, a stage makes one call. -/
theorem exec_perform (c : Config) (s : Stage) (outputs : List Path) (input : Option Bytes)
    (m : Machine) :
    ∃ result, (perform c s outputs input).exec m =
      (result, m.afterCall (callOf c s outputs input)) := by
  by_cases hpass : m.world.outcome.Passes
  · exact ⟨_, exec_perform_of_passes c s outputs input hpass⟩
  · obtain ⟨fault, hexec, -⟩ := exec_perform_of_fails c s outputs input hpass
    exact ⟨_, hexec⟩

theorem byTools_perform (c : Config) (s : Stage) (outputs : List Path) (input : Option Bytes) :
    Leads ByTools (perform c s outputs input) := by
  intro m
  obtain ⟨result, hexec⟩ := exec_perform c s outputs input m
  rw [hexec]
  exact ⟨[callOf c s outputs input], rfl, rfl⟩

theorem byTools_reportFound (c : Config) (format : String) :
    Leads ByTools (reportFound c format) :=
  handling_leads.reportFound leads_findOutputs (byTools_perform c)
    (fun s m => byTools_of_quiet (quiet_printLine s m)) format

theorem byTools_buildAndReport (c : Config) (format : String) :
    Leads ByTools (buildAndReport c format) :=
  handling_leads.buildAndReport leads_findOutputs (byTools_perform c)
    (fun s m => byTools_of_quiet (quiet_printLine s m)) format

theorem byTools_reportingFailure {action : Run Int} (h : Leads ByTools action) :
    Leads ByTools (reportingFailure action) :=
  handling_leads.reportingFailure (fun s m => byTools_of_quiet (quiet_reportLine s m)) h

/-! ## Actions that start no tool -/

/-- Between two machines no tool was started, and nothing was taken from standard error. -/
structure NoCalls (m m' : Machine) : Prop where
  made : m'.calls = m.calls
  shown : m'.shown = m.shown
  err : ∃ text, m'.err = m.err ++ text

theorem noCalls_self (hcalls : m'.calls = m.calls) (hshown : m'.shown = m.shown)
    (herr : m'.err = m.err) : NoCalls m m' :=
  ⟨hcalls, hshown, "", by rw [herr, String.append_empty]⟩

instance : IsPreorder Machine NoCalls where
  refl _ := noCalls_self rfl rfl rfl
  trans := by
    rintro m m' m'' ⟨hcalls, hshown, text, herr⟩ ⟨hcalls', hshown', text', herr'⟩
    refine ⟨hcalls'.trans hcalls, hshown'.trans hshown, text ++ text', ?_⟩
    rw [herr', herr, String.append_assoc]

theorem noCalls_reportLine (s : String) : Leads NoCalls (reportLine s) :=
  fun _ => ⟨rfl, rfl, s ++ "\n", String.append_assoc⟩

theorem noCalls_deleteFile (p : Path) : Leads NoCalls (deleteFile p) :=
  leads_deleteFile fun _ _ => noCalls_self rfl rfl rfl

theorem noCalls_tidy (c : Config) : Leads NoCalls (tidy c) := by
  have hdiscard (p : Path) : Leads NoCalls (discard p) :=
    handling_leads.discard (noCalls_deleteFile p)
  exact handling_leads.tidy noCalls_reportLine
    (handling_leads.discardOutputs leads_findOutputs hdiscard)

theorem noCalls_probeWriting (workDir : Path) : Leads NoCalls (probeWriting workDir) := by
  rw [probeWriting_eq_bind]
  refine leads_get.bind fun m => handling_leads.probeAt (fun content => ?_) (noCalls_deleteFile _)
  exact leads_writeFile fun _ _ => noCalls_self rfl rfl rfl

theorem noCalls_reportPrerequisites (c : Config) : Leads NoCalls (reportPrerequisites c) := by
  rw [reportPrerequisites_eq_bind]
  refine Leads.bind ?_ (handling_leads.reportChecks noCalls_reportLine)
  refine leads_get.bind fun m => ?_
  refine (handling_leads.lift (fun _ _ => by nofun) _).bind fun manifest => ?_
  exact (noCalls_probeWriting _).bind fun writable => handling_leads.pure _

end Run

end HotPath
