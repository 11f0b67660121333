import HotPath.Proofs.FileSystem.LinkSpellings

/-!
# Links in the targets of links

Without remembering anything, the links on a path can be replaced one in the other: a link by its
target, in which the links are replaced first (`View.Expands`). That comes to an end unless a link
is met again in its own target. Where it comes to an end, so does the replacing of links that
remembers them, and at the same path (`Expands.eq_of_expand`): a link that is being replaced is
never met, since it would be nested deeper than itself.
-/

namespace HotPath.FileSystem

namespace View

variable {v : View} {depth depth' : Nat} {here p p' link resolved : Path} {name target : String}
  {rest : List String} {stack : List OpenLink}

/-- The links on the way from `here` along the pieces `rest` can be replaced one in the other, at
most `depth` deep, and the way then comes to `p`. -/
inductive Expands (v : View) : Nat → Path → List String → Path → Prop where
  | done {depth : Nat} {here : Path} : Expands v depth here [] here
  | skip {depth : Nat} {here p : Path} {name : String} {rest : List String}
      (hname : name = "" ∨ name = ".") (hrest : Expands v depth here rest p) :
      Expands v depth here (name :: rest) p
  | up {depth : Nat} {here p : Path} {rest : List String}
      (hrest : Expands v depth (climb here) rest p) : Expands v depth here (".." :: rest) p
  | enter {depth : Nat} {here p : Path} {name : String} {rest : List String}
      (hname : IsEntryPiece name) (hnone : v.linkTarget? (here.child name) = none)
      (hrest : Expands v depth (here.child name) rest p) : Expands v depth here (name :: rest) p
  | follow {depth : Nat} {here mid p : Path} {name target : String} {rest : List String}
      (hname : IsEntryPiece name) (hlink : v.linkTarget? (here.child name) = some target)
      (htarget : Expands v depth (targetStart here target) (piecesOf target) mid)
      (hrest : Expands v (depth + 1) mid rest p) : Expands v (depth + 1) here (name :: rest) p

/-- The links on the path `p` can be replaced one in the other, and it then comes to `e`. -/
def ExpandsTo (v : View) (p e : Path) : Prop := ∃ depth, v.Expands depth (expandStart p) p.names e

namespace Expands

theorem of_nil (h : v.Expands depth here [] p) : p = here := by
  cases h
  rfl

theorem of_skip (h : v.Expands depth here (name :: rest) p) (hname : name = "" ∨ name = ".") :
    v.Expands depth here rest p := by
  have hother : ¬ IsEntryPiece name := fun h => hname.elim h.ne_empty h.ne_dot
  cases h with
  | skip _ hrest => exact hrest
  | up => exact absurd hname (by decide)
  | enter hentry | follow hentry => exact absurd hentry hother

theorem of_up (h : v.Expands depth here (".." :: rest) p) :
    v.Expands depth (climb here) rest p := by
  have hother : ¬ IsEntryPiece ".." := fun h => h.ne_up rfl
  cases h with
  | skip hname => exact absurd hname (by decide)
  | up hrest => exact hrest
  | enter hentry | follow hentry => exact absurd hentry hother

theorem of_enter (h : v.Expands depth here (name :: rest) p) (hname : IsEntryPiece name)
    (hnone : v.linkTarget? (here.child name) = none) :
    v.Expands depth (here.child name) rest p := by
  cases h with
  | skip hother => exact absurd hother (by simp [hname.ne_empty, hname.ne_dot])
  | up => exact absurd rfl hname.ne_up
  | enter _ _ hrest => exact hrest
  | follow _ hlink => exact absurd (hlink.symm.trans hnone) nofun

theorem exists_of_follow (h : v.Expands depth here (name :: rest) p) (hname : IsEntryPiece name)
    (hlink : v.linkTarget? (here.child name) = some target) :
    ∃ below mid, depth = below + 1 ∧
      v.Expands below (targetStart here target) (piecesOf target) mid ∧
      v.Expands depth mid rest p := by
  cases h with
  | skip hother => exact absurd hother (by simp [hname.ne_empty, hname.ne_dot])
  | up => exact absurd rfl hname.ne_up
  | enter _ hnone => exact absurd (hlink.symm.trans hnone) nofun
  | follow _ hlink' htarget hrest =>
    obtain rfl := Option.some.inj (hlink'.symm.trans hlink)
    exact ⟨_, _, rfl, htarget, hrest⟩

/-- The way comes to one path only. -/
theorem unique (h : v.Expands depth here rest p) (h' : v.Expands depth' here rest p') :
    p = p' := by
  induction h generalizing depth' p' with
  | done =>
    cases h'
    rfl
  | skip hname _ ih => exact ih (h'.of_skip hname)
  | up _ ih => exact ih h'.of_up
  | enter hname hnone _ ih => exact ih (h'.of_enter hname hnone)
  | follow hname hlink _ _ ihtarget ih =>
    obtain ⟨below, mid', -, htarget', hrest'⟩ := h'.exists_of_follow hname hlink
    obtain rfl := ihtarget htarget'
    exact ih hrest'

theorem of_le (h : v.Expands depth here rest p) (hle : depth ≤ depth') :
    v.Expands depth' here rest p := by
  induction h generalizing depth' with
  | done => exact .done
  | skip hname _ ih => exact .skip hname (ih hle)
  | up _ ih => exact .up (ih hle)
  | enter hname hnone _ ih => exact .enter hname hnone (ih hle)
  | follow hname hlink _ _ ihtarget ih =>
    obtain ⟨below, rfl⟩ := Nat.exists_eq_add_of_le' (Nat.lt_of_lt_of_le (Nat.succ_pos _) hle)
    exact .follow hname hlink (ihtarget (Nat.le_of_succ_le_succ hle)) (ih hle)

/-- From a straight path the way comes to a straight path. -/
theorem straight (h : v.Expands depth here rest p) (hhere : v.Straight here) : v.Straight p := by
  induction h with
  | done => exact hhere
  | skip _ _ ih => exact ih hhere
  | up _ ih => exact ih hhere.climb
  | enter hname hnone _ ih => exact ih (hhere.child hname hnone)
  | follow _ _ _ _ ihtarget ih => exact ih (ihtarget (hhere.targetStart _))

end Expands

/-! ## What is remembered -/

/-- The link can be replaced, nested at most `depth` deep, and `resolved` is its resolved form. -/
def Resolves (v : View) (depth : Nat) (link resolved : Path) : Prop :=
  ∃ here name, link = here.child name ∧ v.Expands depth here [name] resolved

theorem child_inj {name' : String} (h : p.child name = p'.child name') : p = p' ∧ name = name' := by
  obtain ⟨hroot, hnames⟩ := Path.mk.inj h
  obtain ⟨hfront, hlast⟩ := List.append_inj' hnames rfl
  cases p
  cases p'
  exact ⟨congrArg₂ Path.mk hroot hfront, (List.cons.inj hlast).1⟩

theorem resolves_child_iff :
    v.Resolves depth (here.child name) resolved ↔ v.Expands depth here [name] resolved := by
  constructor
  · rintro ⟨here', name', heq, h⟩
    obtain ⟨rfl, rfl⟩ := child_inj heq
    exact h
  · intro h
    exact ⟨here, name, rfl, h⟩

theorem Resolves.of_le (h : v.Resolves depth link resolved) (hle : depth ≤ depth') :
    v.Resolves depth' link resolved := by
  obtain ⟨here, name, rfl, h⟩ := h
  exact ⟨here, name, rfl, h.of_le hle⟩

theorem Resolves.unique {resolved' : Path} (h : v.Resolves depth link resolved)
    (h' : v.Resolves depth' link resolved') : resolved = resolved' := by
  obtain ⟨here, name, rfl, h⟩ := h
  exact h.unique (resolves_child_iff.mp h')

/-- A link on the way has a resolved form, from which the way goes on. -/
theorem Expands.exists_resolves (h : v.Expands depth here (name :: rest) p)
    (hname : IsEntryPiece name) (hlink : v.linkTarget? (here.child name) = some target) :
    ∃ mid, v.Resolves depth (here.child name) mid ∧ v.Expands depth mid rest p := by
  obtain ⟨below, mid, rfl, htarget, hrest⟩ := h.exists_of_follow hname hlink
  exact ⟨mid, resolves_child_iff.mpr (.follow hname hlink htarget .done), hrest⟩

/-- What is left to be read comes to `p`: the rest of the target that is being read, at most `depth`
deep, and then what is left behind the open links. No open link could be replaced in that depth, so
none is met in it. -/
def LeadsTo (v : View) (p : Path) : Nat → List OpenLink → Path → List String → Prop
  | depth, [], here, rest => v.Expands depth here rest p
  | depth, o :: stack, here, rest =>
    (∀ o' ∈ o :: stack, ∀ resolved, ¬ v.Resolves depth o'.link resolved) ∧
      ∃ mid outer, v.Expands depth here rest mid ∧ (∃ above, v.Resolves above o.link mid) ∧
        LeadsTo v p outer stack mid o.rest

namespace LeadsTo

theorem exists_expands (h : v.LeadsTo p depth stack here rest) :
    ∃ mid, v.Expands depth here rest mid := by
  cases stack with
  | nil => exact ⟨p, h⟩
  | cons o stack =>
    obtain ⟨-, mid, -, hmid, -⟩ := h
    exact ⟨mid, hmid⟩

theorem not_resolves (h : v.LeadsTo p depth stack here rest) {o : OpenLink} (ho : o ∈ stack) :
    ¬ v.Resolves depth o.link resolved := by
  cases stack with
  | nil => cases ho
  | cons => exact h.1 o ho resolved

/-- Another way to the same path can be taken. -/
theorem imp {here' : Path} {rest' : List String} (h : v.LeadsTo p depth stack here rest)
    (himp : ∀ mid, v.Expands depth here rest mid → v.Expands depth here' rest' mid) :
    v.LeadsTo p depth stack here' rest' := by
  cases stack with
  | nil => exact himp p h
  | cons o stack =>
    obtain ⟨hopen, mid, outer, hmid, hstack⟩ := h
    exact ⟨hopen, mid, outer, himp mid hmid, hstack⟩

/-- A link that is met has a target in which it is not met again. -/
theorem follow (h : v.LeadsTo p depth stack here (name :: rest)) (hname : IsEntryPiece name)
    (hlink : v.linkTarget? (here.child name) = some target) :
    ∃ below, v.LeadsTo p below (⟨here.child name, rest⟩ :: stack) (targetStart here target)
      (piecesOf target) := by
  classical
  obtain ⟨_, hend⟩ := h.exists_expands
  obtain ⟨mid, hmid, -⟩ := hend.exists_resolves hname hlink
  have hrest : v.LeadsTo p depth stack mid rest := h.imp fun other hother => by
    obtain ⟨mid', hmid', hother⟩ := hother.exists_resolves hname hlink
    rwa [hmid.unique hmid']
  -- the least depth in which the link can be replaced is too small for its own target
  have hresolves : ∃ least, v.Resolves least (here.child name) mid := ⟨depth, hmid⟩
  have hle := Nat.find_min' hresolves hmid
  have hleast := Nat.find_spec hresolves
  obtain ⟨below, mid', hbelow, htarget, hdone⟩ :=
    (resolves_child_iff.mp hleast).exists_of_follow hname hlink
  obtain rfl := hdone.of_nil
  rw [hbelow] at hle
  refine ⟨below, fun o ho resolved hresolved => ?_, mid, depth, htarget, hresolves, hrest⟩
  rcases List.mem_cons.mp ho with rfl | ho
  · obtain rfl := hresolved.unique hmid
    exact Nat.find_min hresolves ((Nat.lt_succ_self below).trans_eq hbelow.symm) hresolved
  · exact h.not_resolves ho (hresolved.of_le (Nat.le_of_succ_le hle))

end LeadsTo

end View

namespace Expansion

open View

variable {v : View} {p : Path} {s s' : Expansion}

/-- What is left to be read comes to `p`, and what is remembered is right. -/
structure Reads (v : View) (p : Path) (s : Expansion) : Prop where
  tracks : s.Tracks v
  leads : ∃ depth, v.LeadsTo p depth s.stack s.here s.rest
  known : ∀ link resolved, s.known.lookup link = some (some resolved) →
    ∃ depth, v.Resolves depth link resolved
  isOpen : ∀ link, s.known.lookup link = some none → ∃ o ∈ s.stack, o.link = link

theorem lookup_cons_eq_some {known : List (Path × Option Path)} {link other : Path}
    {found found' : Option Path} (h : ((link, found) :: known).lookup other = some found') :
    other = link ∧ found = found' ∨ other ≠ link ∧ known.lookup other = some found' := by
  by_cases hother : other = link
  · rw [hother, List.lookup_cons_self] at h
    exact .inl ⟨hother, Option.some.inj h⟩
  · rw [List.lookup_cons, beq_false_of_ne hother] at h
    exact .inr ⟨hother, h⟩

theorem Reads.step (hstep : Step v s s') (h : s.Reads v p) : s'.Reads v p := by
  obtain ⟨htracks, ⟨depth, hleads⟩, hknown, hopen⟩ := h
  have htracks' := htracks.step hstep
  cases hstep with
  | @close _ known stack link here rest =>
    obtain ⟨-, mid, outer, hmid, habove, hstack⟩ := hleads
    obtain rfl := hmid.of_nil
    refine ⟨htracks', ⟨outer, hstack⟩, fun other resolved hlookup => ?_, fun other hlookup => ?_⟩
    · rcases lookup_cons_eq_some hlookup with ⟨rfl, heq⟩ | ⟨-, hlookup⟩
      · cases heq
        exact habove
      · exact hknown other resolved hlookup
    · rcases lookup_cons_eq_some hlookup with ⟨-, heq⟩ | ⟨hother, hlookup⟩
      · cases heq
      · obtain ⟨o, ho, hlink⟩ := hopen other hlookup
        refine ⟨o, (List.mem_cons.mp ho).resolve_left ?_, hlink⟩
        rintro rfl
        exact hother hlink.symm
  | skip hname =>
    exact ⟨htracks', ⟨depth, hleads.imp fun _ h => h.of_skip hname⟩, hknown, hopen⟩
  | up => exact ⟨htracks', ⟨depth, hleads.imp fun _ h => h.of_up⟩, hknown, hopen⟩
  | enter hname hnone =>
    exact ⟨htracks', ⟨depth, hleads.imp fun _ h => h.of_enter hname hnone⟩, hknown, hopen⟩
  | @reuse _ _ _ here resolved name target rest hname hlink hlookup =>
    refine ⟨htracks', ⟨depth, hleads.imp fun mid h => ?_⟩, hknown, hopen⟩
    obtain ⟨_, hresolved⟩ := hknown _ _ hlookup
    obtain ⟨mid', hmid', hrest⟩ := h.exists_resolves hname hlink
    rwa [hresolved.unique hmid']
  | @follow _ known stack here name target rest hname hlink hlookup =>
    refine ⟨htracks', hleads.follow hname hlink, fun other resolved hlookup => ?_,
      fun other hlookup => ?_⟩
    · rcases lookup_cons_eq_some hlookup with ⟨-, heq⟩ | ⟨-, hlookup⟩
      · cases heq
      · exact hknown other resolved hlookup
    · rcases lookup_cons_eq_some hlookup with ⟨rfl, -⟩ | ⟨-, hlookup⟩
      · exact ⟨_, List.mem_cons_self, rfl⟩
      · obtain ⟨o, ho, hlink⟩ := hopen other hlookup
        exact ⟨o, List.mem_cons_of_mem _ ho, hlink⟩

theorem Reads.ends {e : Path} (h : s.Reads v p) (hends : Ends v s e) : e = p := by
  obtain ⟨htracks, ⟨depth, hleads⟩, -, hopen⟩ := h
  cases hends with
  | done =>
    cases hleads
    rfl
  | circle hname hlink hlookup =>
    obtain ⟨o, ho, hlink'⟩ := hopen _ hlookup
    obtain ⟨_, hmid⟩ := hleads.exists_expands
    obtain ⟨_, hresolved, -⟩ := hmid.exists_resolves hname hlink
    rw [← hlink'] at hresolved
    exact absurd hresolved (hleads.not_resolves ho)
  | spent hname hlink hlookup => exact absurd hlookup (htracks.lookup_ne_none hname hlink)

end Expansion

/-- Where links can be replaced one in the other, the replacing of links comes to the same path. -/
theorem View.Expands.eq_of_expand {v : View} {depth budget : Nat} {q p e : Path}
    (h : v.Expands depth (expandStart q) q.names p) (hbudget : v.expandLimit ≤ budget)
    (hexpand : v.expand budget [] [] (expandStart q) q.names = .ok e) : e = p := by
  have hstart : Expansion.Reads v p ⟨budget, [], [], expandStart q, q.names⟩ :=
    ⟨Expansion.tracks_start v q hbudget, ⟨depth, h⟩, nofun, nofun⟩
  obtain ⟨last, hlast, hends⟩ :=
    Expansion.exists_end (fun _ _ hstep h => Expansion.Reads.step hstep h) hstart hexpand
  exact hlast.ends hends

end HotPath.FileSystem
