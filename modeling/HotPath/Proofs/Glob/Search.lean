import HotPath.Glob.Search
import HotPath.Proofs.Results

/-!
# Where patterns lead

A pattern leads to a path step by step (`Leads`). A search that comes to its end has found exactly
the paths that the pattern leads to and that are asked for (`mem_follow_iff`), and none of them
twice (`nodup_follow`).
-/

namespace HotPath.Glob

open FileSystem

/-- No more directories are asked for behind these steps. -/
def endsHere (directories : Bool) (rest : List Step) : Bool := rest.isEmpty && !directories

/-- The steps lead from `p` to `q`. -/
inductive Leads (v : View) (directories : Bool) : List Step → Path → Path → Prop where
  | here {p : Path} : Leads v directories [] p p
  | exactly {name : String} {rest : List Step} {p q : Path} :
      (if endsHere directories rest then v.isPresent (p.child name)
        else v.isDirectory (p.child name)) = .ok true →
      Leads v directories rest (p.child name) q → Leads v directories (.exactly name :: rest) p q
  | covering {pieces : List Piece} {rest : List Step} {p q : Path} {name : String} {entry : Entry}
      {members : List (String × Entry)} :
      v.list p = .ok members → (name, entry) ∈ members → Covers pieces name.toList →
      (endsHere directories rest = false → leadsOn v p name entry = .ok true) →
      Leads v directories rest (p.child name) q →
      Leads v directories (.covering pieces :: rest) p q
  | descend {rest : List Step} {p q : Path} {names : List String} :
      names = [] ∨ names ∈ v.directoriesBelow p →
      Leads v directories rest ⟨p.root, p.names ++ names⟩ q →
      Leads v directories (.descend :: rest) p q

variable {v : View} {keep : Path → Except FileError Bool} {directories : Bool}
  {rest steps : List Step} {p q : Path} {found : List Path}

/-- What a step with wildcards makes of an entry. -/
def followEntry (v : View) (keep : Path → Except FileError Bool) (directories : Bool)
    (pieces : List Piece) (rest : List Step) (p : Path) (member : String × Entry) :
    Except FileError (List Path) := do
  let admitted ← (if endsHere directories rest then .ok true else leadsOn v p member.1 member.2)
  if admitted && matchesPieces pieces member.1.toList then
    follow v keep directories rest (p.child member.1)
  else return []

/-- What the step through all directories makes of one of them. -/
def followBelow (v : View) (keep : Path → Except FileError Bool) (directories : Bool)
    (rest : List Step) (q : Path) : Except FileError (List Path) := do
  let here ← follow v keep directories rest q
  (← v.list q).forM fun (name, entry) => discard (leadsOn v q name entry)
  return here

theorem follow_exactly {name : String} :
    follow v keep directories (.exactly name :: rest) p =
      (if endsHere directories rest then v.isPresent (p.child name)
        else v.isDirectory (p.child name)) >>= fun there =>
      if there then follow v keep directories rest (p.child name) else .ok [] := by
  rw [follow]
  unfold endsHere
  cases rest.isEmpty && !directories <;> rfl

theorem follow_covering {pieces : List Piece} :
    follow v keep directories (.covering pieces :: rest) p = do
      let members ← v.list p
      return (← members.mapM (followEntry v keep directories pieces rest p)).flatten := by
  rw [follow]
  unfold followEntry endsHere
  cases rest.isEmpty && !directories <;> rfl

theorem follow_descend :
    follow v keep directories (.descend :: rest) p = do
      let below := (v.directoriesBelow p).map fun names => ⟨p.root, p.names ++ names⟩
      let found ← (p :: below.mergeSort Path.le).mapM (followBelow v keep directories rest)
      return found.flatten.eraseDups := rfl

/-! ## What is found -/

theorem mem_follow_nil (h : follow v keep directories [] p = .ok found) :
    q ∈ found ↔ Leads v directories [] p q ∧ keep q = .ok true := by
  obtain ⟨b, hkeep, h⟩ := bind_eq_ok_iff.mp h
  cases h
  constructor
  · intro hq
    cases b with
    | false => cases hq
    | true =>
      obtain rfl := List.mem_singleton.mp hq
      exact ⟨.here, hkeep⟩
  · rintro ⟨hlead, hq⟩
    cases hlead
    rw [hkeep] at hq
    cases hq
    exact List.mem_singleton_self p

section Step

-- what is known of the search along the other steps
variable (ih : ∀ {p found}, follow v keep directories rest p = .ok found →
  (q ∈ found ↔ Leads v directories rest p q ∧ keep q = .ok true))

include ih

theorem mem_follow_exactly {name : String}
    (h : follow v keep directories (.exactly name :: rest) p = .ok found) :
    q ∈ found ↔ Leads v directories (.exactly name :: rest) p q ∧ keep q = .ok true := by
  rw [follow_exactly] at h
  obtain ⟨b, hb, h⟩ := bind_eq_ok_iff.mp h
  cases b with
  | true =>
    rw [ih h]
    constructor
    · rintro ⟨hlead, hkeep⟩
      exact ⟨.exactly hb hlead, hkeep⟩
    · rintro ⟨hlead, hkeep⟩
      cases hlead with
      | exactly _ hlead => exact ⟨hlead, hkeep⟩
  | false =>
    cases h
    constructor
    · intro hq
      cases hq
    · rintro ⟨hlead, -⟩
      cases hlead with
      | exactly hthere _ =>
        rw [hb] at hthere
        cases hthere

theorem mem_followEntry {pieces : List Piece} {member : String × Entry}
    (h : followEntry v keep directories pieces rest p member = .ok found) :
    q ∈ found ↔ (endsHere directories rest = false → leadsOn v p member.1 member.2 = .ok true) ∧
      Covers pieces member.1.toList ∧ Leads v directories rest (p.child member.1) q ∧
      keep q = .ok true := by
  obtain ⟨admitted, hadmitted, h⟩ := bind_eq_ok_iff.mp h
  have hiff : admitted = true ↔
      (endsHere directories rest = false → leadsOn v p member.1 member.2 = .ok true) := by
    cases hends : endsHere directories rest with
    | true =>
      rw [hends] at hadmitted
      cases hadmitted
      simp
    | false =>
      rw [hends] at hadmitted
      change leadsOn v p member.1 member.2 = .ok admitted at hadmitted
      rw [hadmitted]
      simp
  rw [← hiff, ← matchesPieces_iff]
  by_cases hboth : (admitted && matchesPieces pieces member.1.toList) = true
  · rw [if_pos hboth] at h
    rw [Bool.and_eq_true] at hboth
    rw [ih h]
    simp [hboth]
  · rw [if_neg hboth] at h
    cases h
    rw [Bool.and_eq_true] at hboth
    constructor
    · intro hq
      cases hq
    · rintro ⟨hadmits, hcovers, -⟩
      exact absurd ⟨hadmits, hcovers⟩ hboth

theorem mem_follow_covering {pieces : List Piece}
    (h : follow v keep directories (.covering pieces :: rest) p = .ok found) :
    q ∈ found ↔ Leads v directories (.covering pieces :: rest) p q ∧ keep q = .ok true := by
  rw [follow_covering] at h
  obtain ⟨members, hmembers, h⟩ := bind_eq_ok_iff.mp h
  obtain ⟨founds, hfounds, h⟩ := bind_eq_ok_iff.mp h
  cases h
  rw [mem_flatten_iff_of_mapM hfounds]
  constructor
  · rintro ⟨⟨name, entry⟩, hmember, found, hfound, hq⟩
    obtain ⟨hon, hcovers, hlead, hkeep⟩ := (mem_followEntry ih hfound).mp hq
    exact ⟨.covering hmembers hmember hcovers hon hlead, hkeep⟩
  · rintro ⟨hlead, hkeep⟩
    cases hlead with
    | @covering _ _ _ _ name entry _ hlist hmember hcovers hon hlead =>
      rw [hmembers] at hlist
      cases hlist
      obtain ⟨found, -, hfound⟩ := exists_of_mem_of_forall₂ (mapM_eq_ok_iff.mp hfounds) hmember
      exact ⟨_, hmember, found, hfound,
        (mem_followEntry ih hfound).mpr ⟨hon, hcovers, hlead, hkeep⟩⟩

omit ih in
theorem follow_of_followBelow (h : followBelow v keep directories rest p = .ok found) :
    follow v keep directories rest p = .ok found := by
  obtain ⟨here, hhere, h⟩ := bind_eq_ok_iff.mp h
  obtain ⟨members, -, h⟩ := bind_eq_ok_iff.mp h
  obtain ⟨_, -, h⟩ := bind_eq_ok_iff.mp h
  cases h
  exact hhere

theorem mem_follow_descend (h : follow v keep directories (.descend :: rest) p = .ok found) :
    q ∈ found ↔ Leads v directories (.descend :: rest) p q ∧ keep q = .ok true := by
  rw [follow_descend] at h
  obtain ⟨founds, hfounds, h⟩ := bind_eq_ok_iff.mp h
  cases h
  rw [List.mem_eraseDups, mem_flatten_iff_of_mapM hfounds]
  simp only [List.mem_cons, List.mem_mergeSort, List.mem_map]
  constructor
  · rintro ⟨below, hbelow, found, hfound, hq⟩
    obtain ⟨hlead, hkeep⟩ := (ih (follow_of_followBelow hfound)).mp hq
    rcases hbelow with rfl | ⟨names, hnames, rfl⟩
    · refine ⟨.descend (.inl rfl) ?_, hkeep⟩
      rw [List.append_nil]
      exact hlead
    · exact ⟨.descend (.inr hnames) hlead, hkeep⟩
  · rintro ⟨hlead, hkeep⟩
    cases hlead with
    | @descend _ _ _ names hnames hlead =>
      have hbelow : (⟨p.root, p.names ++ names⟩ : Path) = p ∨
          ∃ below ∈ v.directoriesBelow p, (⟨p.root, p.names ++ below⟩ : Path) =
            ⟨p.root, p.names ++ names⟩ := by
        rcases hnames with rfl | hnames
        · rw [List.append_nil]
          exact .inl rfl
        · exact .inr ⟨names, hnames, rfl⟩
      have hmem : (⟨p.root, p.names ++ names⟩ : Path) ∈ p ::
          ((v.directoriesBelow p).map fun names => ⟨p.root, p.names ++ names⟩).mergeSort
            Path.le := by
        simpa only [List.mem_cons, List.mem_mergeSort, List.mem_map] using hbelow
      obtain ⟨found, -, hfound⟩ := exists_of_mem_of_forall₂ (mapM_eq_ok_iff.mp hfounds) hmem
      exact ⟨_, hbelow, found, hfound,
        (ih (follow_of_followBelow hfound)).mpr ⟨hlead, hkeep⟩⟩

end Step

/-- A search that comes to its end has found the paths that the steps lead to and that are asked
for. -/
theorem mem_follow_iff (h : follow v keep directories steps p = .ok found) :
    q ∈ found ↔ Leads v directories steps p q ∧ keep q = .ok true := by
  induction steps generalizing p found with
  | nil => exact mem_follow_nil h
  | cons step rest ih =>
    cases step with
    | exactly name => exact mem_follow_exactly ih h
    | covering pieces => exact mem_follow_covering ih h
    | descend => exact mem_follow_descend ih h

/-! ## Nothing is found twice -/

/-- A pattern leads downwards. -/
theorem Leads.prefix_names (h : Leads v directories steps p q) : p.names <+: q.names := by
  induction h with
  | here => exact List.prefix_rfl
  | exactly _ _ ih => exact (List.prefix_append _ _).trans ih
  | covering _ _ _ _ _ ih => exact (List.prefix_append _ _).trans ih
  | descend _ _ ih => exact (List.prefix_append _ _).trans ih

/-- The name of an entry of the directory at `a`, by the address of the entry. -/
def memberName (a b : Address) : Option String :=
  match b.reverse with
  | name :: up => if up.reverse = a then some name else none
  | [] => none

theorem eq_of_memberName {a b : Address} {name : String} (h : memberName a b = some name) :
    b = a ++ [name] := by
  unfold memberName at h
  split at h
  · rename_i n up hb
    split at h
    · rename_i hup
      cases h
      rw [← List.reverse_reverse b, hb, List.reverse_cons, hup]
    · cases h
  · cases h

theorem nodup_members (t : Tree) (a : Address) : ((t.members a).map (·.1)).Nodup := by
  have hmap : (t.members a).map (·.1) = (t.entries.map (·.1)).filterMap (memberName a) := by
    rw [Tree.members, List.map_filterMap, List.filterMap_map]
    refine List.filterMap_congr fun e _ => ?_
    simp only [Function.comp_def, memberName]
    cases e.1.reverse with
    | nil => rfl
    | cons name up =>
      by_cases hup : up.reverse = a
      · simp [hup]
      · simp [hup]
  rw [hmap]
  refine t.nodup_addresses.filterMap fun b b' name hb hb' => ?_
  rw [eq_of_memberName hb, eq_of_memberName hb']

theorem nodup_list {members : List (String × Entry)} (h : v.list p = .ok members) :
    (members.map (·.1)).Nodup := by
  unfold View.list at h
  split at h
  · cases h
    exact nodup_members v.tree _
  · cases h
    exact List.nodup_nil
  · cases h

theorem nodup_eraseDups {α : Type} [BEq α] [LawfulBEq α] (l : List α) : l.eraseDups.Nodup := by
  induction hn : l.length using Nat.strongRecOn generalizing l with
  | ind n ih =>
    cases l with
    | nil => exact List.nodup_nil
    | cons a l =>
      rw [List.eraseDups_cons, List.nodup_cons]
      refine ⟨?_, ih _ ?_ _ rfl⟩
      · simp [List.mem_eraseDups]
      · have := List.length_filter_le (fun b => !b == a) l
        rw [List.length_cons] at hn
        omega

/-- A search finds nothing twice. -/
theorem nodup_follow (h : follow v keep directories steps p = .ok found) : found.Nodup := by
  induction steps generalizing p found with
  | nil =>
    obtain ⟨b, -, h⟩ := bind_eq_ok_iff.mp h
    cases h
    cases b with
    | false => exact List.nodup_nil
    | true => exact List.nodup_singleton p
  | cons step rest ih =>
    cases step with
    | exactly name =>
      rw [follow_exactly] at h
      obtain ⟨b, -, h⟩ := bind_eq_ok_iff.mp h
      cases b with
      | false =>
        cases h
        exact List.nodup_nil
      | true => exact ih h
    | covering pieces =>
      rw [follow_covering] at h
      obtain ⟨members, hmembers, h⟩ := bind_eq_ok_iff.mp h
      obtain ⟨founds, hfounds, h⟩ := bind_eq_ok_iff.mp h
      cases h
      refine nodup_flatten_of_mapM hfounds (fun member found hfound => ?_) ?_
      · obtain ⟨admitted, -, hfound⟩ := bind_eq_ok_iff.mp hfound
        split at hfound
        · exact ih hfound
        · cases hfound
          exact List.nodup_nil
      · -- what is found below two entries differs in the name of the entry
        refine (List.pairwise_map.mp (nodup_list hmembers)).imp ?_
        intro member member' hne found found' hfound hfound' q hq hq'
        have hlead := ((mem_followEntry mem_follow_iff hfound).mp hq).2.2.1.prefix_names
        have hlead' := ((mem_followEntry mem_follow_iff hfound').mp hq').2.2.1.prefix_names
        have heq := (List.prefix_of_prefix_length_le hlead hlead' (by simp [Path.child])).eq_of_length
          (by simp [Path.child])
        exact hne (by simpa [Path.child] using heq)
    | descend =>
      rw [follow_descend] at h
      obtain ⟨founds, -, h⟩ := bind_eq_ok_iff.mp h
      cases h
      exact nodup_eraseDups _

end HotPath.Glob
