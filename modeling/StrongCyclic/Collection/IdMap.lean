/-!
Association lists by numbers, kept in increasing order of the numbers. Changing a number that is not
there puts it into its place. The view is `List.lookup`.
-/

namespace StrongCyclic.IdMap

variable {α : Type}

/-- Gives the number the value that `f` makes of its old one. -/
def alter (id : Nat) (f : Option α → α) : List (Nat × α) → List (Nat × α)
  | [] => [(id, f none)]
  | entry :: entries =>
    if id < entry.1 then (id, f none) :: entry :: entries
    else if id = entry.1 then (id, f (some entry.2)) :: entries
    else entry :: alter id f entries

/-- Gives the number a value and forgets the old one. -/
def insert (id : Nat) (value : α) : List (Nat × α) → List (Nat × α) :=
  alter id fun _ => value

/-- Gives the number a value if it has none. -/
def ensure (id : Nat) (value : α) : List (Nat × α) → List (Nat × α) :=
  alter id (·.getD value)

/-- The numbers are strictly increasing. -/
def Increasing (entries : List (Nat × α)) : Prop :=
  (entries.map Prod.fst).Pairwise (· < ·)

theorem mem_keys_alter (id : Nat) (f : Option α → α) (entries : List (Nat × α)) (k : Nat) :
    k ∈ (alter id f entries).map Prod.fst ↔ k = id ∨ k ∈ entries.map Prod.fst := by
  induction entries with
  | nil => simp [alter]
  | cons entry entries ih =>
    by_cases h : id < entry.1
    · simp [alter, h]
    · by_cases h' : id = entry.1
      · simp only [alter, Nat.lt_irrefl, h', List.map_cons, List.mem_cons, if_true, if_false]
        grind
      · simp only [alter, h, h', List.map_cons, List.mem_cons, if_false, ih]
        grind

theorem Increasing.alter {entries : List (Nat × α)} (h : Increasing entries) (id : Nat)
    (f : Option α → α) : Increasing (alter id f entries) := by
  induction entries with
  | nil => simp [Increasing, IdMap.alter]
  | cons entry entries ih =>
    simp only [Increasing, List.map_cons, List.pairwise_cons] at h
    by_cases h₁ : id < entry.1
    · simp only [Increasing, IdMap.alter, h₁, if_true, List.map_cons, List.pairwise_cons,
        List.mem_cons]
      exact ⟨by grind, h.1, h.2⟩
    · by_cases h₂ : id = entry.1
      · simp only [Increasing, IdMap.alter, h₂, Nat.lt_irrefl, if_true, if_false, List.map_cons,
          List.pairwise_cons]
        exact h
      · simp only [Increasing, IdMap.alter, h₁, h₂, if_false, List.map_cons, List.pairwise_cons,
          mem_keys_alter]
        exact ⟨by grind, ih h.2⟩

theorem lookup_cons (entry : Nat × α) (entries : List (Nat × α)) (k : Nat) :
    (entry :: entries).lookup k = if k = entry.1 then some entry.2 else entries.lookup k := by
  obtain ⟨id, value⟩ := entry
  by_cases hk : k = id
  · simp [hk]
  · have hne : (k == id) = false := beq_eq_false_iff_ne.mpr hk
    simp [List.lookup_cons, hk, hne]

theorem lookup_eq_none_of_forall_lt {id : Nat} {entries : List (Nat × α)}
    (h : ∀ entry ∈ entries, id < entry.1) : entries.lookup id = none := by
  refine List.lookup_eq_none_iff.mpr fun entry hentry => ?_
  simpa using Nat.ne_of_lt (h entry hentry)

theorem lookup_alter {entries : List (Nat × α)} (h : Increasing entries) (id : Nat)
    (f : Option α → α) (k : Nat) :
    (alter id f entries).lookup k =
      if k = id then some (f (entries.lookup id)) else entries.lookup k := by
  induction entries with
  | nil => simp [alter, lookup_cons]
  | cons entry entries ih =>
    simp only [Increasing, List.map_cons, List.pairwise_cons] at h
    have hlater : ∀ other ∈ entries, entry.1 < other.1 :=
      fun other hother => h.1 other.1 (List.mem_map_of_mem hother)
    rcases Nat.lt_trichotomy id entry.1 with hid | rfl | hid
    · have hnone : (entry :: entries).lookup id = none :=
        lookup_eq_none_of_forall_lt (List.forall_mem_cons.mpr
          ⟨hid, fun other hother => Nat.lt_trans hid (hlater other hother)⟩)
      rw [alter, if_pos hid, hnone, lookup_cons]
    · simp only [alter, Nat.lt_irrefl, if_true, if_false, lookup_cons]
      split <;> rfl
    · simp only [alter, Nat.lt_asymm hid, Nat.ne_of_gt hid, if_false, lookup_cons, ih h.2]
      grind

theorem isSome_lookup_iff {id : Nat} {entries : List (Nat × α)} :
    (entries.lookup id).isSome ↔ id ∈ entries.map Prod.fst := by
  induction entries with
  | nil => simp
  | cons entry entries ih =>
    rw [lookup_cons, List.map_cons, List.mem_cons, ← ih]
    split <;> simp_all

/-- What holds of all entries still holds after a change that keeps it. -/
theorem forall_mem_alter {P : Nat × α → Prop} {id : Nat} {f : Option α → α}
    {entries : List (Nat × α)} (h : ∀ entry ∈ entries, P entry)
    (hf : ∀ old, (∀ value ∈ old, P (id, value)) → P (id, f old)) :
    ∀ entry ∈ alter id f entries, P entry := by
  induction entries with
  | nil => simpa [alter] using hf none (by simp)
  | cons entry entries ih =>
    obtain ⟨hentry, hentries⟩ := List.forall_mem_cons.mp h
    unfold alter
    split
    · exact List.forall_mem_cons.mpr ⟨hf none (by simp), h⟩
    · split
      · next hid =>
        refine List.forall_mem_cons.mpr ⟨hf _ fun value hvalue => ?_, hentries⟩
        cases hvalue
        exact hid ▸ hentry
      · exact List.forall_mem_cons.mpr ⟨hentry, ih hentries⟩

theorem Increasing.lt_of_append_cons {entries rest : List (Nat × α)} {id : Nat} {value : α}
    (h : Increasing (entries ++ (id, value) :: rest)) : ∀ entry ∈ entries, entry.1 < id := by
  rw [Increasing, List.map_append] at h
  intro entry hentry
  exact (List.pairwise_append.mp h).2.2 _ (List.mem_map_of_mem hentry) id (by simp)

/-- A number above all others goes to the end. -/
theorem alter_of_forall_lt {id : Nat} (f : Option α → α) {entries : List (Nat × α)}
    (h : ∀ entry ∈ entries, entry.1 < id) : alter id f entries = entries ++ [(id, f none)] := by
  induction entries with
  | nil => rfl
  | cons entry entries ih =>
    obtain ⟨hentry, hentries⟩ := List.forall_mem_cons.mp h
    simp [alter, Nat.lt_asymm hentry, Nat.ne_of_gt hentry, ih hentries]

/-- The last entry is changed where it stands. -/
theorem alter_last {id : Nat} (f : Option α → α) {entries : List (Nat × α)}
    (h : ∀ entry ∈ entries, entry.1 < id) (value : α) :
    alter id f (entries ++ [(id, value)]) = entries ++ [(id, f (some value))] := by
  induction entries with
  | nil => simp [alter]
  | cons entry entries ih =>
    obtain ⟨hentry, hentries⟩ := List.forall_mem_cons.mp h
    simp [alter, Nat.lt_asymm hentry, Nat.ne_of_gt hentry, ih hentries]

theorem ensure_of_mem_keys {id : Nat} (value : α) {entries : List (Nat × α)}
    (h : Increasing entries) (hid : id ∈ entries.map Prod.fst) :
    ensure id value entries = entries := by
  unfold ensure
  induction entries with
  | nil => simp at hid
  | cons entry entries ih =>
    simp only [Increasing, List.map_cons, List.pairwise_cons] at h
    rcases List.mem_cons.mp hid with rfl | hid
    · simp [alter]
    · have hlt := h.1 id hid
      simp [alter, Nat.lt_asymm hlt, Nat.ne_of_gt hlt, ih h.2 hid]

end StrongCyclic.IdMap
