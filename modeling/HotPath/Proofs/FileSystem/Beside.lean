import HotPath.Proofs.FileSystem.Making

/-!
# Changes in different places

Some program has changed a tree at some addresses: there anything may have become of the entries,
above them directories may have been made, and everything else is as it was (`Tree.Beside`). Changes
in other places do not disturb this (`admits_beside`), and the changes themselves lead to it
(`admits_from`). Both are relations between trees that a change at an address of a given kind keeps
if it is made in both trees (`Admits`).
-/

namespace HotPath.FileSystem

/-! ## Addresses -/

/-- Neither address is the other, nor lies below it. -/
def Apart (a b : Address) : Prop := ¬ a <+: b ∧ ¬ b <+: a

instance (a b : Address) : Decidable (Apart a b) := inferInstanceAs (Decidable (_ ∧ _))

theorem Apart.symm {a b : Address} (h : Apart a b) : Apart b a := ⟨h.2, h.1⟩

/-- The address is one of `X`, or lies below one. -/
def Below (X : Address → Prop) (a : Address) : Prop := ∃ x, X x ∧ x <+: a

/-- The address is one of `X`, or lies above one. -/
def Above (X : Address → Prop) (a : Address) : Prop := ∃ x, X x ∧ a <+: x

variable {X made A : Address → Prop} {a b : Address}

theorem below_of_mem (h : X a) : Below X a := ⟨a, h, List.prefix_rfl⟩

/-- Above an address that is apart from all of `X`, nothing lies below one of them. -/
theorem not_below_of_apart (h : ∀ x, X x → Apart a x) (hb : b <+: a) : ¬ Below X b := by
  rintro ⟨x, hx, hxb⟩
  exact (h x hx).2 (hxb.trans hb)

/-- Nothing is both below one of `A` and below or above one of `B`, where these are apart. -/
theorem not_near_of_below {B : Address → Prop} (h : ∀ a, A a → ∀ b, B b → Apart a b)
    (ha : Below A a) : ¬ Below B a ∧ ¬ Above B a := by
  obtain ⟨x, hx, hxa⟩ := ha
  constructor
  · rintro ⟨y, hy, hya⟩
    rcases List.prefix_or_prefix_of_prefix hxa hya with hxy | hyx
    · exact (h x hx y hy).1 hxy
    · exact (h x hx y hy).2 hyx
  · rintro ⟨y, hy, hay⟩
    exact (h x hx y hy).1 (hxa.trans hay)

theorem ne_of_below (h : ∀ x, X x → Apart a x) (hb : Below X b) : b ≠ a := by
  rintro rfl
  exact not_below_of_apart h List.prefix_rfl hb

theorem ne_of_not_below (hb : ¬ Below X b) (ha : X a) : b ≠ a := by
  rintro rfl
  exact hb (below_of_mem ha)

theorem not_above_of_apart (h : ∀ x, X x → Apart a x) : ¬ Above X a := by
  rintro ⟨x, hx, hax⟩
  exact (h x hx).1 hax

namespace Tree

variable {t t' base u : Tree} {keep keep' : Address → Bool} {e : Entry} {names : List String}

/-! ## A part of a tree -/

theorem restrict_restrict (t : Tree) (h : ∀ a, keep' a = true → keep a = true) :
    (t.restrict keep).restrict keep' = t.restrict keep' := by
  have hkeep (e : Address × Entry) : (keep' e.1 && keep e.1) = keep' e.1 := by
    cases hk : keep' e.1 with
    | false => rfl
    | true => rw [h _ hk]; rfl
  simp only [restrict, List.filter_filter, hkeep]

theorem restrict_erase (t : Tree) (keep : Address → Bool) (a : Address) :
    (t.erase a).restrict keep = (t.restrict keep).erase a := by
  simp only [erase, restrict, List.filter_filter, Bool.and_comm]

theorem restrict_erase_of_not (t : Tree) (ha : keep a = false) :
    (t.erase a).restrict keep = t.restrict keep := by
  refine t.restrict_restrict fun b hb => ?_
  have hne : b ≠ a := by
    rintro rfl
    rw [ha] at hb
    cases hb
  simpa using hne

theorem restrict_insert (t : Tree) (ha : keep a = true) (e : Entry) :
    (t.insert a e).restrict keep = (t.restrict keep).insert a e := by
  simp only [insert, erase, restrict, ha, List.filter_cons_of_pos, List.filter_filter,
    Bool.and_comm]

theorem restrict_insert_of_not (t : Tree) (ha : keep a = false) (e : Entry) :
    (t.insert a e).restrict keep = t.restrict keep := by
  rw [← t.restrict_erase_of_not ha]
  simp only [insert, restrict, ha, Bool.false_eq_true, not_false_eq_true,
    List.filter_cons_of_neg]

/-- Trees that agree in a part have the same entries there. -/
theorem get?_of_restrict (h : t'.restrict keep = t.restrict keep) (ha : keep a = true) :
    t'.get? a = t.get? a := by
  by_cases hnil : a = []
  · rw [hnil]
    rfl
  · have hget := t.get?_restrict keep hnil
    rw [← h, t'.get?_restrict keep hnil, if_pos ha, if_pos ha] at hget
    exact hget

theorem restrict_withWay_cons_of_not (t : Tree) {name : String} {above : List String}
    (h : keep (name :: above).reverse = false) :
    (t.withWay (name :: above)).restrict keep = (t.withWay above).restrict keep := by
  rw [withWay]
  cases t.get? (name :: above).reverse with
  | none => exact restrict_insert_of_not _ h _
  | some e => rfl

theorem restrict_withWay (h : t'.restrict keep = t.restrict keep) (names : List String) :
    (t'.withWay names).restrict keep = (t.withWay names).restrict keep := by
  induction names with
  | nil => exact h
  | cons name above ih =>
    cases hkeep : keep (name :: above).reverse with
    | false => rw [restrict_withWay_cons_of_not t' hkeep, restrict_withWay_cons_of_not t hkeep, ih]
    | true =>
      rw [withWay, withWay, get?_of_restrict h hkeep]
      cases t.get? (name :: above).reverse with
      | none => rw [restrict_insert _ hkeep, restrict_insert _ hkeep, ih]
      | some e => exact ih

theorem restrict_withWay_of_not (t : Tree) (h : ∀ b, b <+: names.reverse → keep b = false) :
    (t.withWay names).restrict keep = t.restrict keep := by
  induction names with
  | nil => rfl
  | cons name above ih =>
    rw [restrict_withWay_cons_of_not t (h _ List.prefix_rfl)]
    refine ih fun b hb => h b (hb.trans ?_)
    rw [List.reverse_cons]
    exact List.prefix_append _ _

/-- The members of a directory that are in the part that is kept. -/
theorem filter_members_restrict (t : Tree) {w : Address} {k : String → Bool}
    (hk : ∀ name, k name = true → keep (w ++ [name]) = true) :
    ((t.restrict keep).members w).filter (fun m => k m.1) =
      (t.members w).filter fun m => k m.1 := by
  unfold members restrict
  rw [List.filter_filterMap, List.filter_filterMap, List.filterMap_filter]
  congr 1
  funext e
  cases hrev : e.1.reverse with
  | nil => simp
  | cons name up =>
    by_cases hup : up.reverse = w
    · cases hname : k name with
      | false => simp [hup, hname, Option.filter]
      | true =>
        have he : e.1 = w ++ [name] := by
          rw [← List.reverse_reverse e.1, hrev, List.reverse_cons, hup]
        rw [he, hk name hname, if_pos rfl]
    · simp [hup]

/-! ## Trees beside one another -/

open Classical in
/-- Nothing has been changed at these addresses. -/
noncomputable def untouched (X made : Address → Prop) (a : Address) : Bool :=
  decide (¬ Below X a ∧ ¬ made a)

theorem untouched_iff : untouched X made a = true ↔ ¬ Below X a ∧ ¬ made a := by
  simp [untouched]

theorem untouched_eq_false_iff : untouched X made a = false ↔ Below X a ∨ made a := by
  rw [← Bool.not_eq_true, untouched_iff]
  tauto

theorem untouched_of_mem (ha : X a) : untouched X made a = false :=
  untouched_eq_false_iff.mpr (.inl (below_of_mem ha))

/-- `t'` is `t` after changes at `X` and below: above that, the directories that `made` says are
there, and everything else is as it was, in the same order. -/
structure Beside (X made : Address → Prop) (t t' : Tree) : Prop where
  above : ∀ a, made a → Above X a
  kept : t'.restrict (untouched X made) = t.restrict (untouched X made)
  grown : ∀ a, made a → ¬ Below X a → t'.get? a = (t.get? a).or (some .directory)

theorem Beside.refl (X : Address → Prop) (t : Tree) : Beside X (fun _ => False) t t :=
  ⟨nofun, rfl, nofun⟩

theorem Beside.get? (h : Beside X made t t') (hbelow : ¬ Below X a) (hmade : ¬ made a) :
    t'.get? a = t.get? a := get?_of_restrict h.kept (untouched_iff.mpr ⟨hbelow, hmade⟩)

theorem Beside.get?_eq (h : Beside X made t t') (hbelow : ¬ Below X a) :
    t'.get? a = t.get? a ∨ made a ∧ t'.get? a = (t.get? a).or (some .directory) := by
  by_cases hmade : made a
  · exact .inr ⟨hmade, h.grown a hmade hbelow⟩
  · exact .inl (h.get? hbelow hmade)

/-- Unless at `X` or below, no file has come or gone. -/
theorem Beside.isFileAt (h : Beside X made t t') (hbelow : ¬ Below X a) :
    t'.isFileAt a = t.isFileAt a := by
  rw [Tree.isFileAt, Tree.isFileAt]
  rcases h.get?_eq hbelow with hget | ⟨-, hget⟩
  · rw [hget]
  · rw [hget]
    cases t.get? a <;> rfl

end Tree

/-! ## Changes that are made in both trees -/

/-- Whatever is changed at an address of `A` in two trees, the relation between them stays. -/
structure Admits (T : Tree → Tree → Prop) (A : Address → Prop) : Prop where
  entry {t t' : Tree} {a : Address} : T t t' → A a → t'.get? a = t.get? a
  file {t t' : Tree} {a b : Address} : T t t' → A a → b <+: a → t'.isFileAt b = t.isFileAt b
  members {t t' : Tree} {w : Address} {k : String → Bool} : T t t' →
    (∀ name, k name = true → A (w ++ [name])) →
    (t'.members w).filter (fun m => k m.1) = (t.members w).filter fun m => k m.1
  insert {t t' : Tree} {a : Address} (e : Entry) : T t t' → A a → T (t.insert a e) (t'.insert a e)
  erase {t t' : Tree} {a : Address} : T t t' → A a → T (t.erase a) (t'.erase a)
  way {t t' : Tree} {a : Address} {names : List String} : T t t' → A a →
    names.reverse <+: a → T (t.withWay names) (t'.withWay names)

namespace Tree.Beside

variable {t t' base u : Tree} {names : List String} {e : Entry}

section Others

-- the addresses at which both trees are changed
variable (hapart : ∀ a, A a → ∀ x, X x → Apart a x)

include hapart

theorem untouched_of_apart (h : Beside X made t t') (ha : A a) : untouched X made a = true :=
  untouched_iff.mpr ⟨not_below_of_apart (hapart a ha) List.prefix_rfl,
    fun hmade => not_above_of_apart (hapart a ha) (h.above a hmade)⟩

theorem insert (h : Beside X made t t') (ha : A a) (e : Entry) :
    Beside X made (t.insert a e) (t'.insert a e) := by
  have hself := h.untouched_of_apart hapart ha
  refine ⟨h.above, ?_, fun b hmade hbelow => ?_⟩
  · rw [restrict_insert _ hself, restrict_insert _ hself, h.kept]
  · have hb : b ≠ a := by
      rintro rfl
      exact (untouched_iff.mp hself).2 hmade
    rw [get?_insert_of_ne _ _ hb, get?_insert_of_ne _ _ hb, h.grown b hmade hbelow]

theorem erase (h : Beside X made t t') (ha : A a) :
    Beside X made (t.erase a) (t'.erase a) := by
  refine ⟨h.above, ?_, fun b hmade hbelow => ?_⟩
  · rw [restrict_erase, restrict_erase, h.kept]
  · have hb : b ≠ a := by
      rintro rfl
      exact (untouched_iff.mp (h.untouched_of_apart hapart ha)).2 hmade
    rw [get?_erase_of_ne _ hb, get?_erase_of_ne _ hb, h.grown b hmade hbelow]

end Others

theorem withWay (h : Beside X made t t') (names : List String) :
    Beside X made (t.withWay names) (t'.withWay names) := by
  refine ⟨h.above, restrict_withWay h.kept names, fun b hmade hbelow => ?_⟩
  rw [get?_withWay, get?_withWay, h.grown b hmade hbelow]
  split
  · rfl
  · rfl

end Tree.Beside

/-- Changes at addresses apart from `X` leave trees beside one another, and leave alone what has
become of the entries at `X` and below. -/
theorem admits_beside (hapart : ∀ a, A a → ∀ x, X x → Apart a x) (u : Tree) :
    Admits (fun t t' => Tree.Beside X made t t' ∧ ∀ a, Below X a → t'.get? a = u.get? a) A where
  entry := by
    rintro t t' a ⟨h, -⟩ ha
    exact Tree.get?_of_restrict h.kept (h.untouched_of_apart hapart ha)
  file := by
    rintro t t' a b ⟨h, -⟩ ha hb
    exact h.isFileAt (not_below_of_apart (hapart a ha) hb)
  members := by
    rintro t t' w k ⟨h, -⟩ hk
    have hkeep (name : String) (hname : k name = true) :
        Tree.untouched X made (w ++ [name]) = true :=
      h.untouched_of_apart hapart (hk name hname)
    rw [← Tree.filter_members_restrict t' hkeep, h.kept, Tree.filter_members_restrict t hkeep]
  insert := by
    rintro t t' a e ⟨h, hu⟩ ha
    refine ⟨h.insert hapart ha e, fun b hb => ?_⟩
    rw [Tree.get?_insert_of_ne _ _ (ne_of_below (hapart a ha) hb), hu b hb]
  erase := by
    rintro t t' a ⟨h, hu⟩ ha
    refine ⟨h.erase hapart ha, fun b hb => ?_⟩
    rw [Tree.get?_erase_of_ne _ (ne_of_below (hapart a ha) hb), hu b hb]
  way := by
    rintro t t' a names ⟨h, hu⟩ ha hnames
    refine ⟨h.withWay names, fun b hb => ?_⟩
    rw [Tree.get?_withWay, if_neg, hu b hb]
    exact fun hstart => not_below_of_apart (hapart a ha) (hstart.trans hnames) hb

/-- It makes no difference in which order two trees beside one another have come about. -/
theorem Tree.Beside.commute {B made' : Address → Prop} {t tA tB tAB tBA : Tree}
    (hapart : ∀ a, A a → ∀ b, B b → Apart a b) (hA : Tree.Beside A made t tA)
    (hB : Tree.Beside B made' t tB) (hBA : Tree.Beside A made tB tBA)
    (hAB : Tree.Beside B made' tA tAB) (hfromA : ∀ a, Below A a → tBA.get? a = tA.get? a)
    (hfromB : ∀ a, Below B a → tAB.get? a = tB.get? a) (a : Address) :
    tBA.get? a = tAB.get? a := by
  by_cases hbelow : Below A a
  · obtain ⟨hother, habove⟩ := not_near_of_below hapart hbelow
    rw [hfromA a hbelow, hAB.get? hother fun hmade => habove (hAB.above a hmade)]
  by_cases hbelow' : Below B a
  · obtain ⟨hother, habove⟩ := not_near_of_below (fun b hb a ha => (hapart a ha b hb).symm) hbelow'
    rw [hfromB a hbelow', hBA.get? hother fun hmade => habove (hBA.above a hmade)]
  by_cases hmade : made a
  · by_cases hmade' : made' a
    · rw [hBA.grown a hmade hbelow, hB.grown a hmade' hbelow', hAB.grown a hmade' hbelow',
        hA.grown a hmade hbelow]
    · rw [hBA.grown a hmade hbelow, hB.get? hbelow' hmade', hAB.get? hbelow' hmade',
        hA.grown a hmade hbelow]
  · by_cases hmade' : made' a
    · rw [hBA.get? hbelow hmade, hB.grown a hmade' hbelow', hAB.grown a hmade' hbelow',
        hA.get? hbelow hmade]
    · rw [hBA.get? hbelow hmade, hB.get? hbelow' hmade', hAB.get? hbelow' hmade',
        hA.get? hbelow hmade]

/-- Changes at `X` lead from a tree to one beside it. -/
theorem admits_from (X : Address → Prop) (base : Tree) :
    Admits (fun t t' => t' = t ∧ ∃ made, Tree.Beside X made base t) X where
  entry := by
    rintro t t' a ⟨rfl, -⟩ -
    rfl
  file := by
    rintro t t' a b ⟨rfl, -⟩ - -
    rfl
  members := by
    rintro t t' w k ⟨rfl, -⟩ -
    rfl
  insert := by
    rintro t t' a e ⟨rfl, made, h⟩ ha
    refine ⟨rfl, made, h.above, ?_, fun b hmade hbelow => ?_⟩
    · rw [Tree.restrict_insert_of_not _ (Tree.untouched_of_mem ha), h.kept]
    · rw [Tree.get?_insert_of_ne _ _ (ne_of_not_below hbelow ha), h.grown b hmade hbelow]
  erase := by
    rintro t t' a ⟨rfl, made, h⟩ ha
    refine ⟨rfl, made, h.above, ?_, fun b hmade hbelow => ?_⟩
    · rw [Tree.restrict_erase_of_not _ (Tree.untouched_of_mem ha), h.kept]
    · rw [Tree.get?_erase_of_ne _ (ne_of_not_below hbelow ha), h.grown b hmade hbelow]
  way := by
    rintro t t' a names ⟨rfl, made, h⟩ ha hnames
    -- the way counts as made, whether or not it has been there before
    refine ⟨rfl, fun b => made b ∨ b <+: names.reverse, ?_, ?_, ?_⟩
    · rintro b (hmade | hb)
      · exact h.above b hmade
      · exact ⟨a, ha, hb.trans hnames⟩
    · have hway (b : Address) (hb : b <+: names.reverse) :
          Tree.untouched X (fun b => made b ∨ b <+: names.reverse) b = false :=
        Tree.untouched_eq_false_iff.mpr (.inr (.inr hb))
      have hless (b : Address)
          (hb : Tree.untouched X (fun b => made b ∨ b <+: names.reverse) b = true) :
          Tree.untouched X made b = true := by
        obtain ⟨hbelow, hmade⟩ := Tree.untouched_iff.mp hb
        exact Tree.untouched_iff.mpr ⟨hbelow, fun h => hmade (.inl h)⟩
      rw [Tree.restrict_withWay_of_not _ hway, ← Tree.restrict_restrict _ hless, h.kept,
        Tree.restrict_restrict _ hless]
    · rintro b hmade hbelow
      rw [Tree.get?_withWay]
      by_cases hb : b <+: names.reverse
      · rw [if_pos hb]
        rcases h.get?_eq hbelow with hget | ⟨-, hget⟩
        · rw [hget]
        · rw [hget, Option.or_assoc]
          rfl
      · rw [if_neg hb, h.grown b (hmade.resolve_right hb) hbelow]

end HotPath.FileSystem
