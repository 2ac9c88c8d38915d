/-!
Association lists in the order in which the keys first appear. Changing the value of a key keeps its
place; a new key goes to the end. The view is `List.lookup`.
-/

namespace StrongCyclic.Keyed

variable {κ α : Type} [DecidableEq κ]

/-- Gives the key the value that `f` makes of its old one. -/
def alter (key : κ) (f : Option α → α) : List (κ × α) → List (κ × α)
  | [] => [(key, f none)]
  | entry :: entries =>
    if entry.1 = key then (key, f (some entry.2)) :: entries
    else entry :: alter key f entries

/-- Gives the key a value and forgets the old one. -/
def insert (key : κ) (value : α) : List (κ × α) → List (κ × α) :=
  alter key fun _ => value

/-- Adds an element to the list that the key stands for. -/
def push (key : κ) (element : α) : List (κ × List α) → List (κ × List α) :=
  alter key fun
    | none => [element]
    | some elements => elements ++ [element]

theorem lookup_alter (key : κ) (f : Option α → α) (entries : List (κ × α)) (k : κ) :
    (alter key f entries).lookup k =
      if k = key then some (f (entries.lookup key)) else entries.lookup k := by
  induction entries with
  | nil =>
    by_cases h : k = key
    · simp [alter, h]
    · have hk : (k == key) = false := beq_eq_false_iff_ne.2 h
      simp [alter, List.lookup_cons, h, hk]
  | cons entry entries ih =>
    obtain ⟨k', value⟩ := entry
    by_cases h' : k' = key
    · subst h'
      by_cases h : k = k'
      · simp [alter, h]
      · have hk : (k == k') = false := beq_eq_false_iff_ne.2 h
        simp [alter, List.lookup_cons, h, hk]
    · have hk : (key == k') = false := beq_eq_false_iff_ne.2 (Ne.symm h')
      by_cases h : k = k'
      · simp [alter, h, h']
      · have hk' : (k == k') = false := beq_eq_false_iff_ne.2 h
        simp [alter, List.lookup_cons, h', hk, hk', ih]

theorem lookup_insert (key : κ) (value : α) (entries : List (κ × α)) (k : κ) :
    (insert key value entries).lookup k = if k = key then some value else entries.lookup k :=
  lookup_alter key _ entries k

theorem insert_insert (key : κ) (old new : α) (entries : List (κ × α)) :
    insert key new (insert key old entries) = insert key new entries := by
  induction entries with
  | nil => simp [insert, alter]
  | cons entry entries ih =>
    by_cases h : entry.1 = key
    · simp [insert, alter, h]
    · simpa [insert, alter, h] using ih

theorem lookup_filter_ne {key k : κ} (h : k ≠ key) (entries : List (κ × α)) :
    (entries.filter (·.1 ≠ key)).lookup k = entries.lookup k := by
  induction entries with
  | nil => rfl
  | cons entry entries ih =>
    obtain ⟨k', value⟩ := entry
    by_cases hk : k' = key
    · have hmiss : (k == k') = false := beq_eq_false_iff_ne.2 (hk ▸ h)
      simp only [List.filter_cons, hk, ne_eq, not_true_eq_false, decide_false, if_false, ih,
        List.lookup_cons, hk ▸ hmiss, Bool.false_eq_true]
    · simp only [List.filter_cons, hk, ne_eq, not_false_eq_true, decide_true, if_true,
        List.lookup_cons, ih]

theorem keys_alter (key : κ) (f : Option α → α) (entries : List (κ × α)) :
    (alter key f entries).map Prod.fst =
      if key ∈ entries.map Prod.fst then entries.map Prod.fst
      else entries.map Prod.fst ++ [key] := by
  induction entries with
  | nil => simp [alter]
  | cons entry entries ih =>
    by_cases h : entry.1 = key
    · simp [alter, h]
    · simp only [alter, h, if_false, List.map_cons, ih, List.mem_cons, Ne.symm h, false_or]
      split <;> simp

theorem nodup_keys_alter (key : κ) (f : Option α → α) {entries : List (κ × α)}
    (h : (entries.map Prod.fst).Nodup) : ((alter key f entries).map Prod.fst).Nodup := by
  rw [keys_alter]
  split
  · exact h
  · next hkey =>
    refine List.nodup_append.mpr ⟨h, by simp, fun k hk k' hk' => ?_⟩
    rintro rfl
    exact hkey (List.mem_singleton.mp hk' ▸ hk)

theorem mem_of_mem_alter {key : κ} {f : Option α → α} {entries : List (κ × α)} {entry : κ × α}
    (h : entry ∈ alter key f entries) :
    entry ∈ entries ∨ entry = (key, f (entries.lookup key)) := by
  induction entries with
  | nil => simpa [alter] using h
  | cons first entries ih =>
    obtain ⟨k, value⟩ := first
    by_cases hk : k = key
    · subst hk
      simp only [alter, if_true, List.mem_cons] at h
      rcases h with h | h
      · simp [h]
      · exact .inl (List.mem_cons_of_mem _ h)
    · have hlookup : (key == k) = false := beq_eq_false_iff_ne.2 (Ne.symm hk)
      simp only [alter, hk, if_false, List.mem_cons] at h
      rcases h with rfl | h
      · exact .inl List.mem_cons_self
      · rcases ih h with h | h
        · exact .inl (List.mem_cons_of_mem _ h)
        · exact .inr (by simpa [List.lookup_cons, hlookup] using h)

/-- An element goes into the list of its key: the list is old, or it ends in the element. -/
theorem mem_push {key : κ} {element : α} {entries : List (κ × List α)} {k : κ}
    {elements : List α} (h : (k, elements) ∈ push key element entries) :
    (k, elements) ∈ entries ∨ k = key ∧ ∃ old, elements = old ++ [element] ∧
      (old = [] ∨ (key, old) ∈ entries) := by
  rcases mem_of_mem_alter h with h | h
  · exact .inl h
  · obtain ⟨rfl, helements⟩ := Prod.mk.inj h
    refine .inr ⟨rfl, ?_⟩
    cases hlookup : entries.lookup k with
    | none => exact ⟨[], by simp [helements, hlookup]⟩
    | some old =>
      obtain ⟨before, after, hentries, -⟩ := List.lookup_eq_some_iff.mp hlookup
      exact ⟨old, by simp [helements, hlookup], by simp [hentries]⟩

end StrongCyclic.Keyed
