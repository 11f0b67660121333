import HotPath.Proofs.FileSystem.Canonical
import HotPath.Proofs.Precedence

/-!
# Canonical work directories

The work directory is looked for by replacing the links on the path that is asked for, which always
ends of itself. What is found is an absolute path of a directory, without `.` and `..`. If it is
canonical, it is found again when it is asked for; and it is canonical if the links on the path that
is asked for can be replaced one in the other (`findWorkDir_canonical`). A link that is met in its
own target stays as it is, and links behind it are not replaced
(`not_forall_findWorkDir_canonical`).
-/

namespace HotPath

open FileSystem

/-! ## Texts of paths -/

namespace Path

theorem namesOf_cons_slash (s : List Char) : namesOf ('/' :: s) = namesOf s := by
  rw [namesOf, namesOf, pieces, if_pos rfl]
  rfl

theorem rootOf_cons_slash {s : List Char} (h : s.head? ≠ some '/') :
    rootOf ('/' :: s) = .slash := by
  cases s with
  | nil => rfl
  | cons c s =>
    have hc : c ≠ '/' := by simpa using h
    unfold rootOf
    split
    case h_1 heq => exact absurd (List.cons.inj (List.cons.inj heq).2).1 hc
    case h_2 heq => exact absurd (List.cons.inj (List.cons.inj heq).2).1 hc
    case h_3 => rfl
    case h_4 hother => exact absurd rfl (hother _)

/-- A path from the top with plain names is read back from its text. -/
theorem parse_text {names : List String} (h : ∀ name ∈ names, IsPlainName name) :
    parse (text ⟨.slash, names⟩) = ⟨.slash, names⟩ := by
  have htext : text ⟨.slash, names⟩ = "/" ++ "/".intercalate names := if_neg fun h => nomatch h.1
  have hlist : ("/" ++ "/".intercalate names).toList = '/' :: ("/".intercalate names).toList :=
    String.toList_append
  rw [parse, htext, hlist, rootOf_cons_slash (head?_plain h), namesOf_cons_slash,
    namesOf_intercalate h]

end Path

/-! ## The path that is asked for -/

theorem isPlain_expandHome {e : Environment} {p q : Path} (hp : p.IsPlain)
    (h : e.expandHome p = .ok q) : q.IsPlain := by
  unfold Environment.expandHome at h
  split at h
  case h_1 name rest _ hnames =>
    have hrest : Path.IsPlain ⟨.relative, rest⟩ := fun n hn =>
      hp n (hnames ▸ List.mem_cons_of_mem name hn)
    split at h
    · split at h
      · cases h
      · split at h
        · cases h
        · split at h
          · cases h
          · cases h
            exact (Path.isPlain_parse _).append hrest
    · cases h
      exact hp
  case h_2 =>
    cases h
    exact hp

theorem isPlain_askedPath {v : View} {e : Environment} {asked : Option String} {path : Path}
    (h : askedPath v e asked = .ok path) : path.IsPlain := by
  unfold askedPath at h
  split at h
  case h_1 => exact isPlain_expandHome (Path.isPlain_parse _) h
  case h_2 hfound =>
    cases h
    exact (View.isResolved_workingDirectory hfound).isPlain
  case h_3 => cases h

/-- An absolute path is asked for as it is. -/
theorem askedPath_text {v : View} {e : Environment} {p : Path} (hp : IsResolved p)
    (hroot : p.root = .slash) : askedPath v e (some p.text) = .ok p := by
  obtain ⟨root, names⟩ := p
  obtain rfl : root = .slash := hroot
  have hparse : Path.parse (Path.text ⟨.slash, names⟩) = ⟨.slash, names⟩ :=
    Path.parse_text hp.isPlain
  change e.expandHome (Path.parse _) = _
  rw [hparse]
  rfl

/-! ## The work directory -/

theorem findWorkDir_canonical (v : View) (e : Environment) (asked : Option String) :
    (∀ path, askedPath v e asked = .ok path → ∀ more,
      v.expand (v.expandLimit + more) [] [] (expandStart path) path.names =
        v.expand v.expandLimit [] [] (expandStart path) path.names) ∧
    ∀ p, findWorkDir v e asked = .ok p →
      IsResolved p ∧ v.isDirectory p = .ok true ∧
      (v.IsCanonical p → ∀ e', findWorkDir v e' (some p.text) = .ok p) ∧
      ∀ path q, askedPath v e asked = .ok path → v.ExpandsTo path q →
        q.isAbsolute = true ∨ q.text.utf8ByteSize ≤ maxPathBytes → v.IsCanonical p := by
  refine ⟨fun path _ more => View.expand_add more (Expansion.tracks_start v path le_rfl),
    fun p hfound => ?_⟩
  obtain ⟨path, hpath, hresolve, hdir⟩ := findWorkDir_eq_ok_iff.mp hfound
  have hresolved := View.isResolved_resolve (isPlain_askedPath hpath) hresolve
  refine ⟨hresolved, hdir, fun hcanonical e' => ?_, fun path' q hpath' hexpands hshort => ?_⟩
  · exact findWorkDir_eq_ok_iff.mpr ⟨p, askedPath_text hresolved hcanonical.root,
      hcanonical.resolve hresolved hdir, hdir⟩
  · obtain rfl := Except.ok.inj (hpath.symm.trans hpath')
    exact View.isCanonical_of_expandsTo hexpands hshort hresolve

/-- A directory, a link to it, and a link to itself. -/
def circle : View where
  tree := ⟨[(["d"], .directory), (["l"], .link "d"), (["self"], .link "self")], by decide⟩
  cwd := ⟨[], 0⟩
  rooted := by decide
  named := by decide +kernel
  inDirectory := rfl

theorem expandsTo_circle : circle.ExpandsTo ⟨.relative, ["l"]⟩ ⟨.relative, ["d"]⟩ := by
  have hl : IsEntryPiece "l" := ⟨by decide, by decide, by decide⟩
  have hd : IsEntryPiece "d" := ⟨by decide, by decide, by decide⟩
  have hlink : circle.linkTarget? (Path.child ⟨.relative, []⟩ "l") = some "d" := by cbv
  have hnone : circle.linkTarget? (Path.child ⟨.relative, []⟩ "d") = none := by cbv
  have htarget : circle.Expands 0 ⟨.relative, []⟩ (piecesOf "d") ⟨.relative, ["d"]⟩ :=
    .enter hd hnone .done
  exact ⟨1, .follow hl hlink htarget .done⟩

theorem findWorkDir_circle :
    findWorkDir circle ⟨[], [], none⟩ (some "l") = .ok ⟨.slash, ["d"]⟩ := by cbv

theorem findWorkDir_canonical_link :
    findWorkDir circle ⟨[], [], none⟩ (some "l") = .ok ⟨.slash, ["d"]⟩ ∧
      circle.IsCanonical ⟨.slash, ["d"]⟩ ∧
      findWorkDir circle ⟨[], [], none⟩ (some "/d") = .ok ⟨.slash, ["d"]⟩ := by
  have hasked : askedPath circle ⟨[], [], none⟩ (some "l") = .ok ⟨.relative, ["l"]⟩ := by cbv
  obtain ⟨-, hfound⟩ := findWorkDir_canonical circle ⟨[], [], none⟩ (some "l")
  obtain ⟨-, -, hagain, hcanonical⟩ := hfound _ findWorkDir_circle
  have hp := hcanonical _ _ hasked expandsTo_circle (.inr (by decide))
  exact ⟨findWorkDir_circle, hp, hagain hp _⟩

/-- The link to itself stays, and with it all that stands behind it. -/
theorem not_forall_findWorkDir_canonical :
    (¬ ∀ (v : View) (e : Environment) (asked : Option String) (p : Path),
      findWorkDir v e asked = .ok p → v.IsCanonical p) ∧
    ¬ ∀ (v : View) (e : Environment) (asked : Option String) (p : Path),
      findWorkDir v e asked = .ok p → findWorkDir v e (some p.text) = .ok p := by
  have hfound : findWorkDir circle ⟨[], [], none⟩ (some "/self/../l") = .ok ⟨.slash, ["l"]⟩ := by
    cbv
  constructor
  · intro h
    have hcanonical := h _ _ _ _ hfound
    exact hcanonical.noLink ["l"] List.prefix_rfl "d" (by cbv)
  · intro h
    have hagain := h _ _ _ _ hfound
    have hother : findWorkDir circle ⟨[], [], none⟩ (some (Path.text ⟨.slash, ["l"]⟩)) =
        .ok ⟨.slash, ["d"]⟩ := by cbv
    exact absurd (Except.ok.inj (hother.symm.trans hagain)) (by decide)

end HotPath
