import HotPath.Proofs.FileSystem.Writing
import HotPath.Proofs.Machine.Calls

/-!
# Drawing a flame graph

Sampling is a relay of five stages with the writing of a file at its end. Which calls are made, what
comes out and what the files are in the end is fixed by how the tools end (`drawFlamegraph_draws`).
-/

namespace HotPath

open FileSystem Run

/-- The calls of sampling, where the call `k` ends as `o k` says: folding is given the exported
trace, and rendering the folded stacks. -/
def samplingCalls (c : Config) (o : Nat → Outcome) : List Call :=
  [⟨Stage.build.command c [], c.workDir, none, false⟩,
    ⟨Stage.sample.command c [], c.workDir, none, false⟩,
    ⟨Stage.exportTrace.command c [], c.workDir, none, true⟩,
    ⟨Stage.fold.command c [], c.workDir, some (o 2).output, true⟩,
    ⟨Stage.render.command c [], c.workDir, some (o 3).output, true⟩]

/-- The file can be written. -/
def CanWrite (v : View) (p : Path) (content : Bytes) : Prop :=
  hasNul p = false ∧ ∃ v', v.write p content = .ok v'

/-- What drawing a flame graph makes of a machine. The tools alone decide it: the call `k` ends as
`m.world.outcomeAt k` says, and leaves the files behind as they are in `m.world.after (k + 1)`. -/
structure Draws (c : Config) (m : Machine) (result : Except Fault Int) (m' : Machine) : Prop where
  /-- A call is made exactly if all calls before it have ended with the code zero. -/
  calls : ∃ n, (∀ k < 5, k < n ↔ ∀ j < k, (m.world.outcomeAt j).Passes) ∧
    m'.calls = m.calls ++ (samplingCalls c m.world.outcomeAt).take n
  succeeds_iff : result = .ok 0 ↔ (∀ k < 5, (m.world.outcomeAt k).Passes) ∧
    CanWrite (m.world.after 5).view c.flamegraph (m.world.outcomeAt 4).output
  graph : result = .ok 0 →
    (m.world.after 5).view.write c.flamegraph (m.world.outcomeAt 4).output = .ok m'.view ∧
      m'.view.read? c.flamegraph = .ok (some (m.world.outcomeAt 4).output)
  /-- The first tool that fails gives the result, and the program has changed no file. -/
  fails : ∀ k < 5, (∀ j < k, (m.world.outcomeAt j).Passes) → ¬ (m.world.outcomeAt k).Passes →
    (∃ call, (samplingCalls c m.world.outcomeAt)[k]? = some call ∧
      result = (m.world.outcomeAt k).exit call.command) ∧
    m'.view = (m.world.after (k + 1)).view
  unwritten : (∀ k < 5, (m.world.outcomeAt k).Passes) →
    ¬ CanWrite (m.world.after 5).view c.flamegraph (m.world.outcomeAt 4).output →
      (∃ fault, result = .error fault) ∧ m'.view = (m.world.after 5).view
  out : m'.out = m.out

namespace Run

/-- The stages of sampling. -/
def samplingLinks : List Link :=
  [⟨.build, false⟩, ⟨.sample, false⟩, ⟨.exportTrace, false⟩, ⟨.fold, true⟩, ⟨.render, true⟩]

/-- What is done with a rendered graph. -/
def finishGraph (c : Config) (graph : Bytes) : Run Int := do
  saveFlamegraph c graph
  reportLine ("Flamegraph: " ++ c.flamegraph.text)
  return 0

theorem drawFlamegraph_eq (c : Config) :
    drawFlamegraph c = reportingFailure (relay c samplingLinks [] >>= finishGraph c) := by
  simp only [drawFlamegraph, samplingLinks, relay, finishGraph, bind_assoc, pure_bind]
  rfl

theorem callsOf_samplingLinks (c : Config) (w : World) :
    callsOf c samplingLinks [] w = samplingCalls c w.outcomeAt := rfl

theorem keptByAll_samplingLinks (w : World) :
    keptByAll samplingLinks [] w = (w.outcomeAt 4).output := rfl

theorem exec_finishGraph_of_canWrite {c : Config} {graph : Bytes} {m : Machine}
    (h : CanWrite m.view c.flamegraph graph) :
    ∃ m', (finishGraph c graph).exec m = (.ok 0, m') ∧
      m.view.write c.flamegraph graph = .ok m'.view ∧
      m'.view.read? c.flamegraph = .ok (some graph) ∧ m'.calls = m.calls ∧ m'.out = m.out := by
  obtain ⟨hnul, v', hwrite⟩ := h
  have hsave : (saveFlamegraph c graph).exec m = (.ok (), { m with view := v' }) := by
    rw [saveFlamegraph, exec_writeFile, if_neg (by simp [hnul]), hwrite]
  rw [finishGraph, exec_bind_ok hsave]
  exact ⟨_, rfl, hwrite, View.read?_write hnul hwrite, rfl, rfl⟩

theorem exec_finishGraph_of_not_canWrite {c : Config} {graph : Bytes} {m : Machine}
    (h : ¬ CanWrite m.view c.flamegraph graph) :
    ∃ fault, (finishGraph c graph).exec m = (.error fault, m) ∧ fault.exit = .error fault := by
  by_cases hnul : hasNul c.flamegraph = true
  · have hsave : (saveFlamegraph c graph).exec m = (.error .nulCharacter, m) := by
      rw [saveFlamegraph, exec_writeFile, if_pos hnul]
    exact ⟨_, exec_bind_error hsave, rfl⟩
  · cases hwrite : m.view.write c.flamegraph graph with
    | ok v' => exact absurd ⟨by simpa using hnul, v', hwrite⟩ h
    | error cause =>
      have hsave : (saveFlamegraph c graph).exec m =
          (.error (.file ⟨cause, c.flamegraph.text⟩), m) := by
        rw [saveFlamegraph, exec_writeFile, if_neg hnul, hwrite]
      exact ⟨_, exec_bind_error hsave, rfl⟩

end Run

section Draws

variable {c : Config} {m m' : Machine} {result : Except Fault Int}

theorem draws_of_fails {k : Nat} {call : Call} (hk : k < 5)
    (hbefore : ∀ j < k, (m.world.outcomeAt j).Passes) (hfails : ¬ (m.world.outcomeAt k).Passes)
    (hcall : (samplingCalls c m.world.outcomeAt)[k]? = some call)
    (hresult : result = (m.world.outcomeAt k).exit call.command)
    (hview : m'.view = (m.world.after (k + 1)).view)
    (hcalls : m'.calls = m.calls ++ (samplingCalls c m.world.outcomeAt).take (k + 1))
    (hout : m'.out = m.out) : Draws c m result m' := by
  have hnonzero : result ≠ .ok 0 := by
    rw [hresult]
    exact Outcome.exit_ne_zero hfails call.command
  constructor
  · refine ⟨k + 1, fun j _ => ⟨fun hj i hi => hbefore i (by omega), fun hj => ?_⟩, hcalls⟩
    have := World.le_of_passes hfails hj
    omega
  · exact ⟨fun h => absurd h hnonzero, fun h => absurd (h.1 k hk) hfails⟩
  · intro h
    exact absurd h hnonzero
  · intro j _ hj hjfails
    obtain rfl := World.eq_of_fails hbefore hfails hj hjfails
    exact ⟨⟨call, hcall, hresult⟩, hview⟩
  · intro hall
    exact absurd (hall k hk) hfails
  · exact hout

theorem draws_of_passes (hall : ∀ k < 5, (m.world.outcomeAt k).Passes)
    (hwritten : CanWrite (m.world.after 5).view c.flamegraph (m.world.outcomeAt 4).output →
      result = .ok 0 ∧
      (m.world.after 5).view.write c.flamegraph (m.world.outcomeAt 4).output = .ok m'.view ∧
      m'.view.read? c.flamegraph = .ok (some (m.world.outcomeAt 4).output))
    (hunwritten : ¬ CanWrite (m.world.after 5).view c.flamegraph (m.world.outcomeAt 4).output →
      (∃ fault, result = .error fault) ∧ m'.view = (m.world.after 5).view)
    (hcalls : m'.calls = m.calls ++ samplingCalls c m.world.outcomeAt) (hout : m'.out = m.out) :
    Draws c m result m' := by
  have hzero (h : result = .ok 0) :
      CanWrite (m.world.after 5).view c.flamegraph (m.world.outcomeAt 4).output := by
    by_contra hwrite
    obtain ⟨⟨fault, hfault⟩, -⟩ := hunwritten hwrite
    rw [hfault] at h
    cases h
  constructor
  · exact ⟨5, fun k hk => ⟨fun _ j hj => hall j (by omega), fun _ => hk⟩, hcalls⟩
  · exact ⟨fun h => ⟨hall, hzero h⟩, fun h => (hwritten h.2).1⟩
  · intro h
    exact (hwritten (hzero h)).2
  · intro k hk _ hfails
    exact absurd (hall k hk) hfails
  · intro _
    exact hunwritten
  · exact hout

/-- **Drawing a flame graph.** The calls are made one after the other, each only if the one before
has ended with the code zero; the graph is written if all have, and otherwise the result is the
status of the first that has not. -/
theorem drawFlamegraph_draws (c : Config) (m : Machine) :
    Draws c m ((drawFlamegraph c).exec m).1 ((drawFlamegraph c).exec m).2 := by
  rw [drawFlamegraph_eq]
  rcases exec_relay c samplingLinks [] m with
    ⟨hall, hrelay⟩ | ⟨k, hk, hbefore, hfails, fault, call, hcall, hexit, hrelay⟩
  · rw [callsOf_samplingLinks, keptByAll_samplingLinks] at hrelay
    have hview := m.view_afterCalls (samplingCalls c m.world.outcomeAt)
    have hcalls := m.calls_afterCalls (samplingCalls c m.world.outcomeAt)
    have hout := m.out_afterCalls (samplingCalls c m.world.outcomeAt)
    generalize m.afterCalls (samplingCalls c m.world.outcomeAt) = after at hrelay hview hcalls hout
    change after.view = (m.world.after 5).view at hview
    by_cases hwrite : CanWrite after.view c.flamegraph (m.world.outcomeAt 4).output
    · obtain ⟨m', hfinish, hwritten, hread, hcalls', hout'⟩ := exec_finishGraph_of_canWrite hwrite
      rw [exec_reportingFailure_ok ((exec_bind_ok hrelay).trans hfinish)]
      rw [hview] at hwrite hwritten
      exact draws_of_passes hall (fun _ => ⟨rfl, hwritten, hread⟩) (fun h => absurd hwrite h)
        (hcalls'.trans hcalls) (hout'.trans hout)
    · obtain ⟨fault, hfinish, hexit⟩ := exec_finishGraph_of_not_canWrite hwrite
      obtain ⟨err, hexec⟩ := exec_reportingFailure_error ((exec_bind_ok hrelay).trans hfinish)
      rw [hexec, hexit]
      rw [hview] at hwrite
      exact draws_of_passes hall (fun h => absurd h hwrite) (fun _ => ⟨⟨fault, rfl⟩, hview⟩) hcalls
        hout
  · obtain ⟨err, hexec⟩ := exec_reportingFailure_error (exec_bind_error hrelay)
    rw [hexec]
    rw [callsOf_samplingLinks] at hcall ⊢
    have hlength : ((samplingCalls c m.world.outcomeAt).take (k + 1)).length = k + 1 := by
      rw [List.length_take]
      exact min_eq_left hk
    refine draws_of_fails hk hbefore hfails hcall hexit ?_ (m.calls_afterCalls _)
      (m.out_afterCalls _)
    exact (m.view_afterCalls _).trans (by rw [hlength])

end Draws

end HotPath
