import HotPath.Proofs.FileSystem.Contents
import HotPath.Proofs.FileSystem.Expanding
import HotPath.Proofs.FileSystem.Naming

/-!
# Spellings of links

While links are replaced, the path so far is straight (`View.Straight`): some `..` in front, then
names that lead to no link. Such a path leads to a place that is read off it (`Straight.address`),
so a link has one spelling from the top and one for every number of `..` in front
(`eq_of_spellingOf`). As there are no more links to replace than spellings of links
(`card_le_expandLimit`), it does not matter how many may be replaced from then on: the replacing of
links always ends of itself (`expand_add`).
-/

namespace HotPath.FileSystem

/-! ## Addresses -/

section Addresses

variable {p : Path} {name : String}

/-- How many `..` stand in front of a path. -/
def upsOf (p : Path) : Nat := (p.names.takeWhile (· = "..")).length

/-- The names of a path behind the `..` in front. -/
def belowOf (p : Path) : List String := p.names.dropWhile (· = "..")

theorem names_eq (p : Path) : p.names = List.replicate (upsOf p) ".." ++ belowOf p := by
  have hups : p.names.takeWhile (· = "..") = List.replicate (upsOf p) ".." :=
    List.eq_replicate_of_mem fun name hname => by simpa using List.mem_takeWhile_imp hname
  rw [← hups]
  exact List.takeWhile_append_dropWhile.symm

theorem upsOf_child (hname : name ≠ "..") : upsOf (p.child name) = upsOf p := by
  have hlast : [name].takeWhile (· = "..") = [] := by simp [hname]
  rw [upsOf, upsOf, Path.child, List.takeWhile_append, hlast, List.append_nil]
  split
  · rename_i hall
    exact hall.symm
  · rfl

theorem belowOf_child (hname : name ≠ "..") : belowOf (p.child name) = belowOf p ++ [name] := by
  have hlast : [name].dropWhile (· = "..") = [name] := by simp [hname]
  rw [belowOf, belowOf, Path.child, List.dropWhile_append, hlast]
  split
  · rename_i hnone
    rw [List.isEmpty_iff.mp hnone, List.nil_append]
  · rfl

/-- The address that a path spells if no link is on its way. -/
def View.addressOf (v : View) (p : Path) : Address :=
  (Place.up^[upsOf p] (v.start p)).address ++ belowOf p

theorem View.addressOf_child (v : View) (hname : name ≠ "..") :
    v.addressOf (p.child name) = v.addressOf p ++ [name] := by
  rw [addressOf, upsOf_child hname, belowOf_child hname, ← List.append_assoc]
  rfl

/-- Steps upwards lead upwards. -/
theorem Walks.of_ups {t : Tree} {purpose : Purpose} {links count : Nat} {here spot : Place}
    (h : Walks t purpose links here (List.replicate count "..") spot) :
    spot = Place.up^[count] here := by
  induction count generalizing here with
  | zero =>
    rw [List.replicate_zero] at h
    cases h
    rfl
  | succ count ih =>
    rw [Function.iterate_succ_apply]
    rw [List.replicate_succ] at h
    generalize hrest : List.replicate count ".." = rest at h
    cases h with
    | stay _ hstep => exact absurd hstep (by decide)
    | up _ hwalks => exact ih (hrest ▸ hwalks)
    | fresh _ hstep | atLink _ hstep | through _ hstep | enter _ hstep =>
      exact absurd rfl hstep.ne_up

end Addresses

/-! ## Straight paths -/

namespace View

variable {v : View} {p q here : Path} {name target : String} {spot : Place}

theorem linkTarget?_eq_some_iff :
    v.linkTarget? p = some target ↔ v.stat .findLink p = .ok (.link target) := by
  unfold linkTarget?
  split
  case h_1 _ hstat => simp [hstat]
  case h_2 hother => exact iff_of_false nofun (hother target)

theorem noLink_iff : v.NoLink p ↔ v.linkTarget? p = none := by
  rw [NoLink, Option.eq_none_iff_forall_ne_some]
  refine forall_congr' fun target => not_congr ?_
  rw [linkTarget?_eq_some_iff, held?_eq_some_iff, stat_eq_ok_iff]

/-- A path with no link on its way: behind some `..` in front, if it is relative, there are names
that lead to no link. -/
inductive Straight (v : View) : Path → Prop where
  | top : Straight v ⟨.slash, []⟩
  | above (count : Nat) : Straight v ⟨.relative, List.replicate count ".."⟩
  | child {p : Path} {name : String} (hp : Straight v p) (hname : IsEntryPiece name)
      (hnone : v.linkTarget? (p.child name) = none) : Straight v (p.child name)

theorem straight_expandStart (v : View) (p : Path) : v.Straight (expandStart p) := by
  unfold expandStart
  split
  · exact .top
  · exact .above 0

theorem Straight.targetStart (h : v.Straight here) (target : String) :
    v.Straight (targetStart here target) := by
  unfold FileSystem.targetStart
  split
  · exact .top
  · exact h

theorem climb_child (hname : name ≠ "..") : climb (p.child name) = p := by
  unfold climb
  simp [Path.child, hname]

theorem Straight.climb (h : v.Straight p) : v.Straight (climb p) := by
  cases h with
  | top => exact .top
  | above count =>
    have hup : FileSystem.climb ⟨.relative, List.replicate count ".."⟩ =
        ⟨.relative, List.replicate (count + 1) ".."⟩ := by
      cases count with
      | zero => rfl
      | succ count =>
        unfold FileSystem.climb
        simp [List.getLast?_replicate, Path.child, List.replicate_succ']
    rw [hup]
    exact .above (count + 1)
  | child hp hname =>
    rw [climb_child hname.ne_up]
    exact hp

theorem Straight.root (h : v.Straight p) : p.root = .slash ∧ upsOf p = 0 ∨ p.root = .relative := by
  induction h with
  | top => exact .inl ⟨rfl, rfl⟩
  | above => exact .inr rfl
  | child _ hname _ ih => rwa [upsOf_child hname.ne_up]

/-- One more name leads to the entry of that name in the place before. -/
theorem exists_of_locate_child (hname : IsEntryPiece name)
    (h : v.locate .findLink (p.child name) = .ok spot) :
    ∃ mid, v.locate .find p = .ok mid ∧ NamesEntry mid name ∧
      spot = ⟨mid.address ++ [name], 0⟩ := by
  obtain ⟨hshort, hwalks⟩ := locate_eq_ok_iff.mp h
  obtain ⟨mid, links, hmid, hend⟩ := hwalks.cut (List.cons_ne_nil name [])
  refine ⟨mid, locate_eq_ok_iff.mpr ⟨text_short_of_append hshort, hmid⟩, ?_⟩
  cases hend with
  | stay _ hstep => exact absurd hstep (by simp [hname.ne_dot, hname.ne_empty])
  | up => exact absurd rfl hname.ne_up
  | fresh _ hstep | atLink _ hstep => exact ⟨hstep, rfl⟩
  | through _ _ _ _ hlast => exact absurd ⟨rfl, rfl⟩ hlast
  | enter _ hstep _ _ _ hdone =>
    cases hdone
    exact ⟨hstep, rfl⟩

/-- A straight path leads to the address that it spells. -/
theorem Straight.address (h : v.Straight p) (hspot : v.locate .find p = .ok spot) :
    spot.address = v.addressOf p := by
  induction h generalizing spot with
  | top =>
    cases (locate_eq_ok_iff.mp hspot).2
    rfl
  | above count =>
    rw [(locate_eq_ok_iff.mp hspot).2.of_ups, addressOf]
    simp [upsOf, belowOf]
  | child hp hname hnone ih =>
    obtain ⟨mid, hmid, -, rfl⟩ :=
      exists_of_locate_child hname ((noLink_iff.mpr hnone).locate_findLink hspot)
    rw [addressOf_child v hname.ne_up, ← ih hmid]

/-! ## Spellings -/

/-- The path is a link under a spelling by which the replacing of links can come to it. -/
def IsSpelling (v : View) (link : Path) : Prop :=
  ∃ here name, link = here.child name ∧ v.Straight here ∧ IsEntryPiece name ∧
    ∃ target, v.linkTarget? link = some target

/-- What tells the spellings of links apart: the address of the link, and how the path to it
starts. -/
def spellingOf (v : View) (link : Path) : Address × Nat :=
  (v.addressOf link, if link.isAbsolute then 0 else upsOf link + 1)

variable {link link' : Path}

theorem IsSpelling.root (h : v.IsSpelling link) :
    link.root = .slash ∧ upsOf link = 0 ∨ link.root = .relative := by
  obtain ⟨here, name, rfl, hhere, hname, -⟩ := h
  rw [upsOf_child hname.ne_up]
  exact hhere.root

theorem IsSpelling.exists_locate (h : v.IsSpelling link) :
    ∃ target spot, v.locate .findLink link = .ok spot ∧ spot = ⟨v.addressOf link, 0⟩ ∧
      v.tree.get? (v.addressOf link) = some (.link target) := by
  obtain ⟨here, name, rfl, hhere, hname, target, hlink⟩ := h
  obtain ⟨spot, hspot, hthere⟩ := stat_eq_ok_iff.mp (linkTarget?_eq_some_iff.mp hlink)
  obtain ⟨mid, hmid, -, rfl⟩ := exists_of_locate_child hname hspot
  rw [hhere.address hmid, ← v.addressOf_child hname.ne_up] at hspot hthere
  exact ⟨target, _, hspot, rfl, hthere⟩

/-- Spellings that cannot be told apart are the same. -/
theorem eq_of_spellingOf (h : v.IsSpelling link) (h' : v.IsSpelling link')
    (heq : v.spellingOf link = v.spellingOf link') : link = link' := by
  obtain ⟨haddress, hindex⟩ := Prod.mk.inj heq
  have hsame : link.root = link'.root ∧ upsOf link = upsOf link' := by
    rcases h.root with ⟨hroot, hups⟩ | hroot <;> rcases h'.root with ⟨hroot', hups'⟩ | hroot' <;>
      simp_all [Path.isAbsolute]
  obtain ⟨hroot, hups⟩ := hsame
  have hstart : v.start link = v.start link' := by
    rw [start, start, Path.isAbsolute, hroot, ← Path.isAbsolute]
  rw [addressOf, addressOf, hstart, hups] at haddress
  have hnames : link.names = link'.names := by
    rw [names_eq link, names_eq link', hups, List.append_cancel_left haddress]
  cases link
  cases link'
  exact congrArg₂ Path.mk hroot hnames

theorem two_mul_le_utf8ByteSize (count : Nat) (names : List String) :
    2 * count ≤ ("/".intercalate (List.replicate count ".." ++ names)).utf8ByteSize := by
  induction count with
  | zero => exact Nat.zero_le _
  | succ count ih =>
    rw [List.replicate_succ, List.cons_append]
    have hup : "..".utf8ByteSize = 2 := by decide
    cases hrest : List.replicate count ".." ++ names with
    | nil =>
      have hempty : ("/".intercalate ([] : List String)).utf8ByteSize = 0 := by decide
      rw [hrest, hempty] at ih
      rw [String.intercalate_singleton]
      omega
    | cons name rest =>
      rw [hrest] at ih
      rw [String.intercalate_cons_cons, String.utf8ByteSize_append, String.utf8ByteSize_append]
      omega

theorem IsSpelling.index_lt (h : v.IsSpelling link) : (v.spellingOf link).2 < maxPathBytes := by
  obtain ⟨target, spot, hspot, -, -⟩ := h.exists_locate
  have hshort := (locate_eq_ok_iff.mp hspot).1
  have hups : 2 * upsOf link ≤ maxPathBytes := by
    have hle := two_mul_le_utf8ByteSize (upsOf link) (belowOf link)
    rw [← names_eq] at hle
    rw [Path.text] at hshort
    split at hshort
    · rename_i hbare
      have hnone : upsOf link = 0 := by rw [upsOf, hbare.2]; rfl
      omega
    · rw [String.utf8ByteSize_append] at hshort
      omega
  rw [spellingOf]
  dsimp only
  unfold maxPathBytes at hups ⊢
  split <;> omega

/-- The addresses of the links of a tree. -/
def linkAddresses (t : Tree) : List Address := (t.entries.filter fun e => e.2.isLink).map (·.1)

theorem mem_linkAddresses {t : Tree} {a : Address} {target : String}
    (h : t.get? a = some (.link target)) : a ∈ linkAddresses t := by
  have hne : a ≠ [] := by
    rintro rfl
    cases h
  exact List.mem_map.mpr ⟨_, List.mem_filter.mpr ⟨(t.mem_entries_iff hne).mpr h, rfl⟩, rfl⟩

/-- There are no more spellings of links than links can be replaced. -/
theorem card_le_expandLimit (links : Finset Path) (h : ∀ link ∈ links, v.IsSpelling link) :
    links.card ≤ v.expandLimit := by
  have hmaps : ∀ link ∈ links, v.spellingOf link ∈
      (linkAddresses v.tree).toFinset ×ˢ Finset.range maxPathBytes := by
    intro link hmem
    obtain ⟨target, -, -, -, hentry⟩ := (h link hmem).exists_locate
    exact Finset.mem_product.mpr ⟨List.mem_toFinset.mpr (mem_linkAddresses hentry),
      Finset.mem_range.mpr (h link hmem).index_lt⟩
  calc
    links.card ≤ ((linkAddresses v.tree).toFinset ×ˢ Finset.range maxPathBytes).card :=
      Finset.card_le_card_of_injOn v.spellingOf hmaps fun link hmem link' hmem' =>
        eq_of_spellingOf (h link hmem) (h link' hmem')
    _ = (linkAddresses v.tree).toFinset.card * maxPathBytes := by
      rw [Finset.card_product, Finset.card_range]
    _ ≤ v.expandLimit := by
      refine Nat.mul_le_mul_right _ ((List.toFinset_card_le _).trans_eq ?_)
      rw [linkAddresses, List.length_map, Tree.linkCount]

end View

/-! ## The number of links to replace -/

namespace Expansion

open View

variable {v : View} {s s' : Expansion}

/-- The links that have been replaced or are being replaced. -/
def links (s : Expansion) : Finset Path := (s.known.map (·.1)).toFinset

/-- All paths so far are straight, and what may still be replaced is enough for all spellings of
links that have not been met. -/
structure Tracks (v : View) (s : Expansion) : Prop where
  here : v.Straight s.here
  known : ∀ link resolved, (link, some resolved) ∈ s.known → v.Straight resolved
  spelled : ∀ link ∈ s.links, v.IsSpelling link
  stack : ∀ o ∈ s.stack, v.IsSpelling o.link
  enough : v.expandLimit ≤ s.links.card + s.budget

theorem tracks_start (v : View) (p : Path) {budget : Nat} (h : v.expandLimit ≤ budget) :
    Tracks v ⟨budget, [], [], expandStart p, p.names⟩ where
  here := straight_expandStart v p
  known := by exact nofun
  spelled := by exact nofun
  stack := by exact nofun
  enough := h.trans (Nat.le_add_left _ _)

theorem links_cons (budget : Nat) (link : Path) (found : Option Path)
    (known : List (Path × Option Path)) (stack : List OpenLink) (here : Path)
    (rest : List String) :
    links ⟨budget, (link, found) :: known, stack, here, rest⟩ =
      insert link (known.map (·.1)).toFinset := by
  rw [links, List.map_cons, List.toFinset_cons]

theorem not_mem_of_lookup {known : List (Path × Option Path)} {link : Path}
    (h : known.lookup link = none) : link ∉ (known.map (·.1)).toFinset := by
  rw [List.lookup_eq_none_iff] at h
  simpa using fun found hmem => by simpa using h (link, found) hmem

theorem Tracks.step (hstep : Step v s s') (h : s.Tracks v) : s'.Tracks v := by
  obtain ⟨hhere, hknown, hspelled, hstack, henough⟩ := h
  cases hstep with
  | @close _ known _ link =>
    obtain ⟨hopen, hstack⟩ := List.forall_mem_cons.mp hstack
    refine ⟨hhere, fun other resolved hmem => ?_, ?_, hstack, ?_⟩
    · rcases List.mem_cons.mp hmem with heq | hmem
      · cases heq
        exact hhere
      · exact hknown other resolved hmem
    · rw [links_cons]
      exact Finset.forall_mem_insert _ _ _ |>.mpr ⟨hopen, hspelled⟩
    · have hle := Finset.card_le_card (Finset.subset_insert link (known.map (·.1)).toFinset)
      rw [links_cons]
      exact henough.trans (Nat.add_le_add_right hle _)
  | skip => exact ⟨hhere, hknown, hspelled, hstack, henough⟩
  | up => exact ⟨hhere.climb, hknown, hspelled, hstack, henough⟩
  | enter hname hnone => exact ⟨hhere.child hname hnone, hknown, hspelled, hstack, henough⟩
  | reuse _ _ hlookup =>
    exact ⟨hknown _ _ (mem_of_lookup hlookup), hknown, hspelled, hstack, henough⟩
  | @follow budget known _ here name target _ hname hlink hlookup =>
    have hspelling : v.IsSpelling (here.child name) :=
      ⟨here, name, rfl, hhere, hname, target, hlink⟩
    refine ⟨hhere.targetStart target, fun other resolved hmem => ?_, ?_,
      List.forall_mem_cons.mpr ⟨hspelling, hstack⟩, ?_⟩
    · rcases List.mem_cons.mp hmem with heq | hmem
      · cases heq
      · exact hknown other resolved hmem
    · rw [links_cons]
      exact Finset.forall_mem_insert _ _ _ |>.mpr ⟨hspelling, hspelled⟩
    · rw [links_cons, Finset.card_insert_of_notMem (not_mem_of_lookup hlookup)]
      have hle : v.expandLimit ≤ (known.map (·.1)).toFinset.card + (budget + 1) := henough
      change v.expandLimit ≤ _ + 1 + budget
      omega

/-- As long as there is a link that has not been met, links can be replaced. -/
theorem Tracks.lookup_ne_none {known : List (Path × Option Path)} {stack : List OpenLink}
    {here : Path} {name target : String} {rest : List String}
    (h : Tracks v ⟨0, known, stack, here, name :: rest⟩) (hname : IsEntryPiece name)
    (hlink : v.linkTarget? (here.child name) = some target) :
    known.lookup (here.child name) ≠ none := by
  intro hlookup
  have hspelling : v.IsSpelling (here.child name) :=
    ⟨here, name, rfl, h.here, hname, target, hlink⟩
  have hspelled : ∀ link ∈ (known.map (·.1)).toFinset, v.IsSpelling link := h.spelled
  have hle := card_le_expandLimit (insert (here.child name) (known.map (·.1)).toFinset)
    (Finset.forall_mem_insert _ _ _ |>.mpr ⟨hspelling, hspelled⟩)
  have henough : v.expandLimit ≤ (known.map (·.1)).toFinset.card + 0 := h.enough
  rw [Finset.card_insert_of_notMem (not_mem_of_lookup hlookup)] at hle
  omega

end Expansion

/-- **The replacing of links ends of itself.** However many more links may be replaced, the path
comes out the same. -/
theorem View.expand_add {v : View} {budget : Nat} {known : List (Path × Option Path)}
    {stack : List OpenLink} {here : Path} {rest : List String} (more : Nat)
    (h : Expansion.Tracks v ⟨budget, known, stack, here, rest⟩) :
    v.expand (budget + more) known stack here rest = v.expand budget known stack here rest := by
  have hstep {s s' : Expansion} (hs : Expansion.Step v s s') (h : s.Tracks v) := h.step hs
  fun_induction View.expand v budget known stack here rest
  case case1 => rw [expand]
  case case2 ih => rw [expand, ih (hstep .close h)]
  case case3 hname ih =>
    rw [expand, if_pos hname]
    simp only [Bool.or_eq_true, decide_eq_true_eq] at hname
    exact ih (hstep (.skip hname) h)
  case case4 hname ih => rw [expand, if_neg hname, if_pos rfl, ih (hstep .up h)]
  case case5 hname hup _ hnul =>
    rw [expand, if_neg hname, if_neg hup]
    exact if_pos hnul
  case case6 hname hup _ hnul hlink ih =>
    rw [expand_name hname hup hnul, hlink]
    exact ih (hstep (.enter (Expansion.isEntryPiece_of hname hup) hlink) h)
  case case7 hname hup _ hnul _ hlink resolved hknown ih =>
    rw [expand_name hname hup hnul, hlink]
    dsimp only
    rw [hknown]
    exact ih (hstep (.reuse (Expansion.isEntryPiece_of hname hup) hlink hknown) h)
  case case8 hname hup _ hnul _ hlink hknown =>
    rw [expand_name hname hup hnul, hlink]
    dsimp only
    rw [hknown]
  case case9 hname hup _ _ _ hlink hknown =>
    exact absurd hknown (h.lookup_ne_none (Expansion.isEntryPiece_of hname hup) hlink)
  case case10 hname hup _ hnul _ hlink hknown budget ih =>
    rw [expand_name hname hup hnul, hlink]
    dsimp only
    rw [hknown, Nat.succ_add]
    exact ih (hstep (.follow (Expansion.isEntryPiece_of hname hup) hlink hknown) h)

end HotPath.FileSystem
