import HotPath.Proofs.FileSystem.Resolving
import HotPath.Proofs.SourceDir

/-!
# Replacing links step by step

Replacing the links on a path goes from one state to the next (`Expansion.Step`) and ends at a
resolved path, or at a link that stays as it is (`Expansion.Ends`). What every step preserves holds
in the state in which it ends (`Expansion.exists_end`).

The first such property is that all names are plain (`Expansion.IsPlain`). So a resolved path is
absolute, and each of its names can stand between two slashes and is not `..`
(`isResolved_resolve`).
-/

namespace HotPath

namespace Path

/-- All names can stand between two slashes. -/
def IsPlain (p : Path) : Prop := ∀ name ∈ p.names, IsPlainName name

theorem IsPlain.child {p : Path} (h : p.IsPlain) {name : String} (hname : IsPlainName name) :
    (p.child name).IsPlain := by
  intro n hn
  rcases List.mem_append.mp hn with hn | hn
  · exact h n hn
  · rwa [List.mem_singleton.mp hn]

theorem isPlain_parse (text : String) : (parse text).IsPlain :=
  fun _ hname => isPlainName_of_mem_namesOf hname

theorem IsPlain.append {p q : Path} (hp : p.IsPlain) (hq : q.IsPlain) : (p.append q).IsPlain := by
  unfold Path.append
  split
  · exact hq
  · intro n hn
    exact (List.mem_append.mp hn).elim (hp n) (hq n)

end Path

namespace FileSystem

theorem isPlain_climb {p : Path} (h : p.IsPlain) : (climb p).IsPlain := by
  have hup : Path.IsPlainName ".." := ⟨by decide, by decide⟩
  unfold climb
  split
  · split
    · exact h
    · intro n hn
      rwa [List.mem_singleton.mp hn]
  · split
    · exact h.child hup
    · exact fun n hn => h n (List.mem_of_mem_dropLast hn)

theorem isPlain_stuckAt {link : Path} (h : link.IsPlain) (rest : List String)
    (stack : List OpenLink) : (stuckAt link rest stack).IsPlain := by
  have hjoin {p : Path} (hp : p.IsPlain) (pieces : List String) : (joinPieces p pieces).IsPlain :=
    hp.append (Path.isPlain_parse _)
  unfold stuckAt
  refine List.foldlRecOn stack _ (hjoin h rest) fun p hp o _ => hjoin hp o.rest

theorem mem_of_lookup {known : List (Path × Option Path)} {link : Path} {found : Option Path}
    (h : known.lookup link = some found) : (link, found) ∈ known := by
  obtain ⟨front, back, rfl, -⟩ := List.lookup_eq_some_iff.mp h
  exact List.mem_append_right front List.mem_cons_self

theorem not_slash_of_mem_piecesOf {text piece : String} (h : piece ∈ piecesOf text) :
    '/' ∉ piece.toList := by
  obtain ⟨p, hp, rfl⟩ := List.mem_map.mp h
  rw [String.toList_ofList]
  exact Path.not_slash_of_mem_pieces hp

/-- How far the replacing of links has come. -/
structure Expansion where
  budget : Nat
  known : List (Path × Option Path)
  stack : List OpenLink
  here : Path
  rest : List String

/-- The piece of a text names an entry. -/
structure IsEntryPiece (piece : String) : Prop where
  ne_empty : piece ≠ ""
  ne_dot : piece ≠ "."
  ne_up : piece ≠ ".."

/-- Where the replacing of links starts on a path. -/
def expandStart (p : Path) : Path := ⟨if p.isAbsolute then .slash else .relative, []⟩

/-- Where the target of a link in `here` starts. -/
def targetStart (here : Path) (target : String) : Path :=
  if startsAtTop target then ⟨.slash, []⟩ else here

namespace Expansion

section Steps

variable {v : View} {budget : Nat} {known : List (Path × Option Path)} {stack : List OpenLink}
  {here e : Path} {rest : List String}

/-- One step of replacing links. -/
inductive Step (v : View) : Expansion → Expansion → Prop where
  | close {budget : Nat} {known : List (Path × Option Path)} {stack : List OpenLink}
      {link here : Path} {rest : List String} :
      Step v ⟨budget, known, ⟨link, rest⟩ :: stack, here, []⟩
        ⟨budget, (link, some here) :: known, stack, here, rest⟩
  | skip {budget : Nat} {known : List (Path × Option Path)} {stack : List OpenLink} {here : Path}
      {name : String} {rest : List String} (hname : name = "" ∨ name = ".") :
      Step v ⟨budget, known, stack, here, name :: rest⟩ ⟨budget, known, stack, here, rest⟩
  | up {budget : Nat} {known : List (Path × Option Path)} {stack : List OpenLink} {here : Path}
      {rest : List String} :
      Step v ⟨budget, known, stack, here, ".." :: rest⟩ ⟨budget, known, stack, climb here, rest⟩
  | enter {budget : Nat} {known : List (Path × Option Path)} {stack : List OpenLink} {here : Path}
      {name : String} {rest : List String} (hname : IsEntryPiece name)
      (hnone : v.linkTarget? (here.child name) = none) :
      Step v ⟨budget, known, stack, here, name :: rest⟩
        ⟨budget, known, stack, here.child name, rest⟩
  | reuse {budget : Nat} {known : List (Path × Option Path)} {stack : List OpenLink}
      {here resolved : Path} {name target : String} {rest : List String}
      (hname : IsEntryPiece name) (hlink : v.linkTarget? (here.child name) = some target)
      (hknown : known.lookup (here.child name) = some (some resolved)) :
      Step v ⟨budget, known, stack, here, name :: rest⟩ ⟨budget, known, stack, resolved, rest⟩
  | follow {budget : Nat} {known : List (Path × Option Path)} {stack : List OpenLink} {here : Path}
      {name target : String} {rest : List String} (hname : IsEntryPiece name)
      (hlink : v.linkTarget? (here.child name) = some target)
      (hknown : known.lookup (here.child name) = none) :
      Step v ⟨budget + 1, known, stack, here, name :: rest⟩
        ⟨budget, (here.child name, none) :: known, ⟨here.child name, rest⟩ :: stack,
          targetStart here target, piecesOf target⟩

/-- The replacing of links ends: all is read, or a link is met that is being replaced, or no more
links may be replaced. -/
inductive Ends (v : View) : Expansion → Path → Prop where
  | done {budget : Nat} {known : List (Path × Option Path)} {here : Path} :
      Ends v ⟨budget, known, [], here, []⟩ here
  | circle {budget : Nat} {known : List (Path × Option Path)} {stack : List OpenLink} {here : Path}
      {name target : String} {rest : List String} (hname : IsEntryPiece name)
      (hlink : v.linkTarget? (here.child name) = some target)
      (hknown : known.lookup (here.child name) = some none) :
      Ends v ⟨budget, known, stack, here, name :: rest⟩ (stuckAt (here.child name) rest stack)
  | spent {known : List (Path × Option Path)} {stack : List OpenLink} {here : Path}
      {name target : String} {rest : List String} (hname : IsEntryPiece name)
      (hlink : v.linkTarget? (here.child name) = some target)
      (hknown : known.lookup (here.child name) = none) :
      Ends v ⟨0, known, stack, here, name :: rest⟩ (stuckAt (here.child name) rest stack)

theorem isEntryPiece_of {name : String} (hname : ¬ (name = "" || name = ".") = true)
    (hup : ¬ name = "..") : IsEntryPiece name := by
  simp only [Bool.or_eq_true, decide_eq_true_eq, not_or] at hname
  exact ⟨hname.1, hname.2, hup⟩

/-- What every step preserves holds where the replacing of links ends. -/
theorem exists_end {I : Expansion → Prop} (hstep : ∀ s s', Step v s s' → I s → I s')
    (hstart : I ⟨budget, known, stack, here, rest⟩)
    (h : v.expand budget known stack here rest = .ok e) : ∃ last, I last ∧ Ends v last e := by
  fun_induction View.expand v budget known stack here rest
  case case1 =>
    cases h
    exact ⟨_, hstart, .done⟩
  case case2 ih => exact ih (hstep _ _ .close hstart) h
  case case3 hname ih =>
    simp only [Bool.or_eq_true, decide_eq_true_eq] at hname
    exact ih (hstep _ _ (.skip hname) hstart) h
  case case4 ih => exact ih (hstep _ _ .up hstart) h
  case case5 => cases h
  case case6 hname hup _ _ hnone ih =>
    exact ih (hstep _ _ (.enter (isEntryPiece_of hname hup) hnone) hstart) h
  case case7 hname hup _ _ _ hlink _ hknown ih =>
    exact ih (hstep _ _ (.reuse (isEntryPiece_of hname hup) hlink hknown) hstart) h
  case case8 hname hup _ _ _ hlink hknown =>
    cases h
    exact ⟨_, hstart, .circle (isEntryPiece_of hname hup) hlink hknown⟩
  case case9 hname hup _ _ _ hlink hknown =>
    cases h
    exact ⟨_, hstart, .spent (isEntryPiece_of hname hup) hlink hknown⟩
  case case10 hname hup _ _ _ hlink hknown _ ih =>
    exact ih (hstep _ _ (.follow (isEntryPiece_of hname hup) hlink hknown) hstart) h

end Steps

/-! ## Plain names -/

/-- All names that have been read can stand between two slashes, and so can all pieces that are left
to be read. -/
structure IsPlain (s : Expansion) : Prop where
  here : s.here.IsPlain
  rest : ∀ piece ∈ s.rest, '/' ∉ piece.toList
  stack : ∀ o ∈ s.stack, ∀ piece ∈ o.rest, '/' ∉ piece.toList
  known : ∀ link resolved, (link, some resolved) ∈ s.known → resolved.IsPlain

theorem isPlain_start {p : Path} (h : p.IsPlain) (budget : Nat) :
    IsPlain ⟨budget, [], [], expandStart p, p.names⟩ where
  here := by exact nofun
  rest := fun piece hmem => (h piece hmem).2
  stack := nofun
  known := nofun

theorem isPlainName_of_piece {piece : String} (h : IsEntryPiece piece)
    (hslash : '/' ∉ piece.toList) : Path.IsPlainName piece := by
  refine ⟨?_, hslash⟩
  have hempty : piece.toList ≠ [] := fun heq => h.ne_empty (String.toList_eq_nil_iff.mp heq)
  have hdot : piece.toList ≠ ['.'] := fun heq => h.ne_dot (String.toList_inj.mp heq)
  rw [Path.isName, Bool.and_eq_true, decide_eq_true_eq, decide_eq_true_eq]
  exact ⟨hempty, hdot⟩

theorem isPlain_targetStart {here : Path} (h : here.IsPlain) (target : String) :
    (targetStart here target).IsPlain := by
  unfold targetStart
  split
  · exact nofun
  · exact h

theorem IsPlain.step {v : View} {s s' : Expansion} (hstep : Step v s s') (h : s.IsPlain) :
    s'.IsPlain := by
  obtain ⟨hhere, hrest, hstack, hknown⟩ := h
  cases hstep with
  | close =>
    obtain ⟨hopen, hstack⟩ := List.forall_mem_cons.mp hstack
    refine ⟨hhere, hopen, hstack, fun link resolved hmem => ?_⟩
    rcases List.mem_cons.mp hmem with heq | hmem
    · cases heq
      exact hhere
    · exact hknown link resolved hmem
  | skip => exact ⟨hhere, (List.forall_mem_cons.mp hrest).2, hstack, hknown⟩
  | up => exact ⟨isPlain_climb hhere, (List.forall_mem_cons.mp hrest).2, hstack, hknown⟩
  | enter hname =>
    obtain ⟨hslash, hrest⟩ := List.forall_mem_cons.mp hrest
    exact ⟨hhere.child (isPlainName_of_piece hname hslash), hrest, hstack, hknown⟩
  | reuse hname _ hlookup =>
    exact ⟨hknown _ _ (mem_of_lookup hlookup), (List.forall_mem_cons.mp hrest).2, hstack, hknown⟩
  | follow =>
    refine ⟨isPlain_targetStart hhere _, fun piece => not_slash_of_mem_piecesOf,
      List.forall_mem_cons.mpr ⟨(List.forall_mem_cons.mp hrest).2, hstack⟩,
      fun link resolved hmem => ?_⟩
    rcases List.mem_cons.mp hmem with heq | hmem
    · cases heq
    · exact hknown link resolved hmem

theorem IsPlain.ends {v : View} {s : Expansion} {e : Path} (h : s.IsPlain) (hends : Ends v s e) :
    e.IsPlain := by
  have hlink {here : Path} {name : String} {rest : List String} (hhere : here.IsPlain)
      (hname : IsEntryPiece name) (hrest : ∀ piece ∈ name :: rest, '/' ∉ piece.toList) :
      (here.child name).IsPlain :=
    hhere.child (isPlainName_of_piece hname (hrest name List.mem_cons_self))
  cases hends with
  | done => exact h.here
  | circle hname => exact isPlain_stuckAt (hlink h.here hname h.rest) _ _
  | spent hname => exact isPlain_stuckAt (hlink h.here hname h.rest) _ _

end Expansion

/-! ## Resolved paths -/

/-- The path is absolute, and each of its names can stand between two slashes and is not `..`. -/
structure IsResolved (p : Path) : Prop where
  isAbsolute : p.isAbsolute = true
  names : ∀ name ∈ p.names, Path.IsPlainName name ∧ name ≠ ".."

theorem IsResolved.isPlain {p : Path} (h : IsResolved p) : p.IsPlain := fun n hn => (h.names n hn).1

theorem collapse_concat (names : List String) (name : String) :
    collapse (names ++ [name]) =
      if name = ".." then (collapse names).dropLast else collapse names ++ [name] := by
  rw [collapse, List.foldl_concat]
  rfl

theorem mem_collapse {names : List String} {name : String} (h : name ∈ collapse names) :
    name ∈ names ∧ name ≠ ".." := by
  induction names using List.reverseRecOn with
  | nil => cases h
  | append_singleton names last ih =>
    rw [collapse_concat] at h
    split at h
    · obtain ⟨hmem, hup⟩ := ih (List.mem_of_mem_dropLast h)
      exact ⟨List.mem_append_left _ hmem, hup⟩
    · rename_i hlast
      rcases List.mem_append.mp h with hmem | hmem
      · obtain ⟨hmem, hup⟩ := ih hmem
        exact ⟨List.mem_append_left _ hmem, hup⟩
      · obtain rfl := List.mem_singleton.mp hmem
        exact ⟨List.mem_append_right _ List.mem_cons_self, hlast⟩

namespace View

variable {v : View} {p q : Path}

/-- The working directory is named as a directory can be named. -/
theorem names_cwd (v : View) : ∀ name ∈ v.cwd.address, Path.IsPlainName name ∧ name ≠ ".." := by
  intro name hmem
  have hname := v.named.of_get? v.inDirectory name hmem
  have hdot : name.toList ≠ ['.'] := fun hdot => hname.ne_dot (String.toList_inj.mp hdot)
  exact ⟨⟨by simp [Path.isName, hname.ne_empty, hdot], hname.noSlash⟩, hname.ne_up⟩

theorem isResolved_workingDirectory {cwd : Path} (h : v.workingDirectory? = some cwd) :
    IsResolved cwd := by
  unfold workingDirectory? at h
  split at h
  · cases h
    exact ⟨rfl, v.names_cwd⟩
  · cases h

/-- The path is completed by the working directory, if it is relative. -/
def Completes (v : View) (e full : Path) : Prop :=
  e.isAbsolute = true ∧ full = e ∨
    e.isAbsolute = false ∧ v.cwd.lost = 0 ∧ full = ⟨.slash, v.cwd.address ++ e.names⟩

theorem settle_eq_ok_iff {full : Path} :
    v.settle full = .ok q ↔ q = ⟨full.root, collapse full.names⟩ ∧ hasNul q = false ∧
      v.stat .find q ≠ .error .tooManyLinks := by
  unfold settle
  dsimp only
  by_cases hnul : hasNul ⟨full.root, collapse full.names⟩ = true
  · rw [if_pos hnul]
    refine iff_of_false nofun ?_
    rintro ⟨rfl, hnul', -⟩
    exact Bool.noConfusion (hnul.symm.trans hnul')
  · rw [if_neg hnul]
    split
    case h_1 hloop =>
      refine iff_of_false nofun ?_
      rintro ⟨rfl, -, hstat⟩
      exact hstat hloop
    case h_2 hstat =>
      constructor
      · intro h
        cases h
        exact ⟨rfl, Bool.eq_false_iff.mpr hnul, hstat⟩
      · rintro ⟨rfl, -, -⟩
        rfl

/-- A path is resolved by replacing its links, completing it and settling it. -/
theorem resolve_eq_ok_iff : v.resolve p = .ok q ↔
    ∃ e full, v.expand v.expandLimit [] [] (expandStart p) p.names = .ok e ∧
      v.Completes e full ∧ v.settle full = .ok q := by
  rw [resolve_eq_bind, bind_eq_ok_iff]
  refine exists_congr fun e => ?_
  rw [exists_and_left]
  refine and_congr_right fun _ => ?_
  unfold Completes
  cases he : e.isAbsolute with
  | true => simp
  | false =>
    by_cases hlost : v.cwd.lost = 0
    · have hcwd : v.workingDirectory? = some ⟨.slash, v.cwd.address⟩ := if_pos hlost
      simp [hcwd, hlost, Path.append, he]
    · have hcwd : v.workingDirectory? = none := if_neg hlost
      simp [hcwd, hlost]

theorem isResolved_resolve (hp : p.IsPlain) (h : v.resolve p = .ok q) :
    IsResolved q := by
  obtain ⟨e, full, hexpand, hfull, hsettle⟩ := resolve_eq_ok_iff.mp h
  obtain ⟨rfl, -, -⟩ := settle_eq_ok_iff.mp hsettle
  obtain ⟨last, hlast, hends⟩ := Expansion.exists_end (fun _ _ => Expansion.IsPlain.step)
    (Expansion.isPlain_start hp _) hexpand
  have he : e.IsPlain := hlast.ends hends
  have habsolute : full.isAbsolute = true ∧ full.IsPlain := by
    rcases hfull with ⟨habsolute, rfl⟩ | ⟨-, -, rfl⟩
    · exact ⟨habsolute, he⟩
    · refine ⟨rfl, fun n hn => (List.mem_append.mp hn).elim (fun hn => ?_) (he n)⟩
      exact (v.names_cwd n hn).1
  refine ⟨habsolute.1, fun n hn => ?_⟩
  obtain ⟨hmem, hup⟩ := mem_collapse hn
  exact ⟨habsolute.2 n hmem, hup⟩

end View

end FileSystem

end HotPath
