import HotPath.Text.Utf8

/-!
# The file tree

A file tree binds addresses to entries. The address of an entry is the list of names that leads to
it from the top directory, without links; the top directory itself is always there.

* `get?_insert_self`, `get?_insert_of_ne`: inserting at one address changes that address only.
* `get?_erase_self`, `get?_erase_of_ne`: so does erasing.
* `Rooted`, `Named`: every entry stands in a directory, under a name that an entry can have. Where
  an entry can be put so that this stays so is `Free`.
-/

namespace HotPath.FileSystem

/-- The names that lead to an entry from the top directory. -/
abbrev Address := List String

/-- What a name of a directory stands for. -/
inductive Entry where
  /-- A regular file: its content, and whether it may be executed. -/
  | file (content : Bytes) (executable : Bool)
  /-- A symbolic link with its target as written. -/
  | link (target : String)
  | directory
  deriving Repr, DecidableEq

def Entry.isLink : Entry → Bool
  | .link _ => true
  | _ => false

/-- A file tree: the entries below the top directory, one at each address. -/
structure Tree where
  entries : List (Address × Entry)
  nodup_addresses : (entries.map (·.1)).Nodup
  deriving Repr, DecidableEq

namespace Tree

def empty : Tree := ⟨[], .nil⟩

def get? (t : Tree) (a : Address) : Option Entry :=
  if a = [] then some .directory else t.entries.lookup a

/-- The tree with only the entries at the addresses that `keep` admits. -/
def restrict (t : Tree) (keep : Address → Bool) : Tree :=
  ⟨t.entries.filter fun e => keep e.1, t.nodup_addresses.sublist (List.filter_sublist.map _)⟩

def erase (t : Tree) (a : Address) : Tree := t.restrict (· ≠ a)

theorem not_mem_addresses_erase (t : Tree) (a : Address) : a ∉ (t.erase a).entries.map (·.1) := by
  simp [erase, restrict]

def insert (t : Tree) (a : Address) (e : Entry) : Tree :=
  ⟨(a, e) :: (t.erase a).entries,
    List.nodup_cons.2 ⟨t.not_mem_addresses_erase a, (t.erase a).nodup_addresses⟩⟩

/-- The tree without the entry at `a` and without everything below it. -/
def eraseAll (t : Tree) (a : Address) : Tree := t.restrict fun b => !a.isPrefixOf b

/-- The names in the directory at `a`, and what they stand for. -/
def members (t : Tree) (a : Address) : List (String × Entry) :=
  t.entries.filterMap fun e =>
    match e.1.reverse with
    | name :: up => if up.reverse = a then some (name, e.2) else none
    | [] => none

/-- The directories strictly below `a` that are reached without links, each as the names from
`a`. -/
def directoriesBelow (t : Tree) (a : Address) : List (List String) :=
  t.entries.filterMap fun e =>
    if e.2 = .directory ∧ a.isPrefixOf e.1 ∧ e.1 ≠ a then some (e.1.drop a.length) else none

def linkCount (t : Tree) : Nat := (t.entries.filter fun e => e.2.isLink).length

theorem lookup_filter (l : List (Address × Entry)) (keep : Address → Bool) (a : Address) :
    (l.filter fun e => keep e.1).lookup a = if keep a then l.lookup a else none := by
  induction l with
  | nil => exact (ite_self none).symm
  | cons e l ih =>
    obtain ⟨b, e⟩ := e
    rw [List.filter_cons, List.lookup_cons]
    by_cases hab : a = b
    · subst hab
      by_cases hb : keep a = true
      · rw [if_pos hb, if_pos hb, List.lookup_cons, beq_self_eq_true]
      · rw [if_neg hb, if_neg hb, ih, if_neg hb]
    · rw [beq_false_of_ne hab]
      by_cases hb : keep b = true
      · rw [if_pos hb, List.lookup_cons, beq_false_of_ne hab, ih]
      · rw [if_neg hb, ih]

theorem get?_restrict (t : Tree) (keep : Address → Bool) {a : Address} (ha : a ≠ []) :
    (t.restrict keep).get? a = if keep a then t.get? a else none := by
  simp only [get?, restrict, ha, if_false]
  exact lookup_filter t.entries keep a

theorem get?_restrict_of_keep (t : Tree) {keep : Address → Bool} {a : Address}
    (h : keep a = true) : (t.restrict keep).get? a = t.get? a := by
  by_cases ha : a = []
  · rw [ha]
    rfl
  · rw [get?_restrict _ _ ha, if_pos h]

theorem get?_erase_self (t : Tree) {a : Address} (h : a ≠ []) : (t.erase a).get? a = none := by
  rw [erase, get?_restrict _ _ h, if_neg (by simp)]

theorem get?_erase_of_ne (t : Tree) {a b : Address} (h : b ≠ a) :
    (t.erase a).get? b = t.get? b :=
  t.get?_restrict_of_keep (decide_eq_true h)

theorem get?_insert_self (t : Tree) {a : Address} (e : Entry) (h : a ≠ []) :
    (t.insert a e).get? a = some e := by
  simp [get?, insert, h]

theorem get?_insert_of_ne (t : Tree) {a b : Address} (e : Entry) (h : b ≠ a) :
    (t.insert a e).get? b = t.get? b := by
  have := get?_erase_of_ne t h
  simp only [get?, insert] at *
  rw [List.lookup_cons, beq_false_of_ne h]
  exact this

theorem mem_entries_of_get? (t : Tree) {a : Address} {e : Entry} (ha : a ≠ [])
    (h : t.get? a = some e) : (a, e) ∈ t.entries := by
  rw [get?, if_neg ha, List.lookup_eq_some_iff] at h
  obtain ⟨before, after, hentries, -⟩ := h
  rw [hentries]
  exact List.mem_append_right before List.mem_cons_self

end Tree

/-! ## Where entries stand -/

def maxNameBytes : Nat := 255

/-- A name that an entry can have. -/
structure IsFileName (name : String) : Prop where
  ne_dot : name ≠ "."
  ne_empty : name ≠ ""
  ne_up : name ≠ ".."
  noSlash : '/' ∉ name.toList
  noNul : '\x00' ∉ name.toList
  short : name.utf8ByteSize ≤ maxNameBytes

instance (name : String) : Decidable (IsFileName name) :=
  decidable_of_iff (name ≠ "." ∧ name ≠ "" ∧ name ≠ ".." ∧ '/' ∉ name.toList ∧
      '\x00' ∉ name.toList ∧ name.utf8ByteSize ≤ maxNameBytes)
    ⟨fun ⟨hdot, hempty, hup, hslash, hnul, hshort⟩ => ⟨hdot, hempty, hup, hslash, hnul, hshort⟩,
      fun h => ⟨h.ne_dot, h.ne_empty, h.ne_up, h.noSlash, h.noNul, h.short⟩⟩

namespace Tree

variable {t : Tree} {a b : Address} {e : Entry}

/-- Every entry stands in a directory. -/
def Rooted (t : Tree) : Prop := ∀ entry ∈ t.entries, t.get? entry.1.dropLast = some .directory

/-- Every entry has a name that an entry can have. -/
def Named (t : Tree) : Prop := ∀ entry ∈ t.entries, ∀ name ∈ entry.1, IsFileName name

instance (t : Tree) : Decidable t.Rooted :=
  inferInstanceAs (Decidable (∀ entry ∈ t.entries, t.get? entry.1.dropLast = some .directory))

instance (t : Tree) : Decidable t.Named :=
  inferInstanceAs (Decidable (∀ entry ∈ t.entries, ∀ name ∈ entry.1, IsFileName name))

theorem Rooted.dropLast (h : t.Rooted) (hentry : t.get? a = some e) :
    t.get? a.dropLast = some .directory := by
  by_cases ha : a = []
  · rw [ha]
    rfl
  · exact h _ (t.mem_entries_of_get? ha hentry)

theorem Rooted.above (h : t.Rooted) {name : String} (hentry : t.get? (a ++ [name]) = some e) :
    t.get? a = some .directory := by
  have hup := h.dropLast hentry
  rwa [List.dropLast_concat] at hup

theorem Rooted.directory (h : t.Rooted) {names : List String} (hnames : names ≠ [])
    (hentry : t.get? (a ++ names) = some e) : t.get? a = some .directory := by
  induction names generalizing a with
  | nil => exact absurd rfl hnames
  | cons name rest ih =>
    rw [List.append_cons] at hentry
    by_cases hrest : rest = []
    · rw [hrest, List.append_nil] at hentry
      exact h.above hentry
    · exact h.above (ih hrest hentry)

theorem Named.of_get? (h : t.Named) (hentry : t.get? a = some e) :
    ∀ name ∈ a, IsFileName name := by
  intro name hname
  exact h _ (t.mem_entries_of_get? (List.ne_nil_of_mem hname) hentry) name hname

end Tree

/-- Nothing stands at the address, or something that can be replaced. -/
def Replaceable (t : Tree) (a : Address) : Prop := t.get? a ≠ some .directory

instance (t : Tree) (a : Address) : Decidable (Replaceable t a) :=
  inferInstanceAs (Decidable (_ ≠ _))

theorem Replaceable.ne_nil {t : Tree} {a : Address} (h : Replaceable t a) : a ≠ [] := by
  rintro rfl
  exact h rfl

/-- An entry can be put at the address: it then stands in a directory, under names that entries can
have, and no directory goes away. -/
structure Free (t : Tree) (a : Address) : Prop where
  above : t.get? a.dropLast = some .directory
  named : ∀ name ∈ a, IsFileName name
  replaceable : Replaceable t a

theorem free_iff {t : Tree} {a : Address} : Free t a ↔
    t.get? a.dropLast = some .directory ∧ (∀ name ∈ a, IsFileName name) ∧ Replaceable t a :=
  ⟨fun h => ⟨h.above, h.named, h.replaceable⟩,
    fun ⟨habove, hnamed, hreplaceable⟩ => ⟨habove, hnamed, hreplaceable⟩⟩

instance (t : Tree) (a : Address) : Decidable (Free t a) := decidable_of_iff _ free_iff.symm

namespace Tree

variable {t : Tree} {a b : Address} {e : Entry}

/-! ### Putting an entry -/

theorem directory_insert (ha : Replaceable t a) (e : Entry) (hb : t.get? b = some .directory) :
    (t.insert a e).get? b = some .directory := by
  rw [t.get?_insert_of_ne e, hb]
  rintro rfl
  exact ha hb

theorem eq_or_mem_of_mem_insert {entry : Address × Entry} (h : entry ∈ (t.insert a e).entries) :
    entry = (a, e) ∨ entry ∈ t.entries :=
  (List.mem_cons.mp h).imp_right fun hmem => (List.mem_filter.mp hmem).1

theorem Rooted.insert (h : t.Rooted) (habove : t.get? a.dropLast = some .directory)
    (ha : Replaceable t a) (e : Entry) : (t.insert a e).Rooted := by
  intro entry hmem
  apply directory_insert ha
  rcases eq_or_mem_of_mem_insert hmem with rfl | hmem
  · exact habove
  · exact h entry hmem

theorem Named.insert (h : t.Named) (ha : ∀ name ∈ a, IsFileName name) (e : Entry) :
    (t.insert a e).Named := by
  intro entry hmem
  rcases eq_or_mem_of_mem_insert hmem with rfl | hmem
  · exact ha
  · exact h entry hmem

/-! ### Taking entries away -/

theorem Rooted.restrict (h : t.Rooted) {keep : Address → Bool}
    (hkeep : ∀ entry ∈ t.entries, keep entry.1 = true → keep entry.1.dropLast = true) :
    (t.restrict keep).Rooted := by
  intro entry hmem
  obtain ⟨hmem, hkept⟩ := List.mem_filter.mp hmem
  rw [get?_restrict_of_keep _ (hkeep entry hmem hkept), h entry hmem]

theorem Named.restrict (h : t.Named) (keep : Address → Bool) : (t.restrict keep).Named :=
  fun entry hmem => h entry (List.mem_filter.mp hmem).1

theorem directory_erase (ha : Replaceable t a) (hb : t.get? b = some .directory) :
    (t.erase a).get? b = some .directory := by
  rw [t.get?_erase_of_ne, hb]
  rintro rfl
  exact ha hb

theorem Rooted.erase (h : t.Rooted) (ha : Replaceable t a) : (t.erase a).Rooted := by
  refine h.restrict fun entry hmem _ => decide_eq_true ?_
  rintro rfl
  exact ha (h entry hmem)

theorem Rooted.eraseAll (h : t.Rooted) (a : Address) : (t.eraseAll a).Rooted := by
  refine h.restrict fun entry _ hkept => ?_
  simp only [Bool.not_eq_true', Bool.eq_false_iff, ne_eq, List.isPrefixOf_iff_prefix] at hkept ⊢
  exact fun hup => hkept (hup.trans (List.dropLast_prefix entry.1))

theorem get?_eraseAll (t : Tree) (h : ¬ a <+: b) : (t.eraseAll a).get? b = t.get? b :=
  t.get?_restrict_of_keep (by simpa [Bool.eq_false_iff, List.isPrefixOf_iff_prefix] using h)

end Tree

end HotPath.FileSystem
