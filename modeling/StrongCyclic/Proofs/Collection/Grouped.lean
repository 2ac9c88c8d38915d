import Mathlib.Data.List.Induction
import Mathlib.Data.List.Nodup
import Mathlib.Data.List.Perm.Basic
import StrongCyclic.Collection.Keyed
import StrongCyclic.Collection.Sorted

/-!
Lists that are taken apart by a key. The keys stand in the order of their first appearance; under a key
stands the first or the last element that has it, or all of them in their order. Nothing is lost: the parts put
together are the list again. Sorting by a number keeps apart what has different numbers, and the order
of what has the same.
-/

namespace StrongCyclic

section Keys

variable {α : Type} [BEq α] [LawfulBEq α]

theorem nodup_eraseDups : ∀ as : List α, as.eraseDups.Nodup
  | [] => List.nodup_nil
  | a :: as => by
    rw [List.eraseDups_cons]
    exact List.nodup_cons.mpr ⟨by simp, nodup_eraseDups _⟩
termination_by as => as.length
decreasing_by exact Nat.lt_succ_of_le (List.length_filter_le _ _)

theorem eraseDups_concat (as : List α) (a : α) :
    (as ++ [a]).eraseDups = if a ∈ as then as.eraseDups else as.eraseDups ++ [a] := by
  rw [List.eraseDups_append]
  by_cases h : a ∈ as <;> simp [List.removeAll, h, List.eraseDups_cons]

theorem eraseDups_perm_of_nodup {as : List α} (h : as.Nodup) : as.eraseDups.Perm as :=
  (List.perm_ext_iff_of_nodup (nodup_eraseDups as) h).mpr fun _ => List.mem_eraseDups

end Keys

variable {κ α β : Type} [DecidableEq κ] {f : α → κ} {as : List α}

theorem filter_key_eq_nil {key : κ} (h : key ∉ as.map f) : as.filter (f · = key) = [] :=
  List.filter_eq_nil_iff.mpr fun a ha => by
    simpa using fun heq => h (List.mem_map.mpr ⟨a, ha, heq⟩)

/-- The parts of a list, one for each of the keys that occur, are the list again. -/
theorem flatMap_filter_perm {keys : List κ} (hkeys : keys.Nodup) (hall : ∀ a ∈ as, f a ∈ keys) :
    (keys.flatMap fun key => as.filter (f · = key)).Perm as := by
  induction keys generalizing as with
  | nil =>
    obtain rfl : as = [] := List.eq_nil_iff_forall_not_mem.mpr fun a ha => nomatch hall a ha
    exact List.Perm.refl _
  | cons key keys ih =>
    obtain ⟨hkey, hkeys⟩ := List.nodup_cons.mp hkeys
    -- the other parts are those of the elements with another key
    have hrest : ∀ k ∈ keys, as.filter (f · = k) =
        (as.filter fun a => !decide (f a = key)).filter (f · = k) := fun k hk => by
      rw [List.filter_filter]
      refine List.filter_congr fun a _ => ?_
      by_cases ha : f a = k
      · have hne : f a ≠ key := fun heq => hkey (heq ▸ ha ▸ hk)
        simp [ha, ha ▸ hne]
      · simp [ha]
    rw [List.flatMap_cons, List.flatMap_congr hrest]
    refine ((ih hkeys fun a ha => ?_).append_left _).trans (List.filter_append_perm _ as)
    obtain ⟨ha, hne⟩ := List.mem_filter.mp ha
    refine (List.mem_cons.mp (hall a ha)).resolve_left fun heq => ?_
    simp [heq] at hne

namespace Keyed

theorem keys_foldl_alter (f : α → κ) (g : α → Option β → β) (as : List α) :
    (as.foldl (fun index a => alter (f a) (g a) index) []).map Prod.fst =
      (as.map f).eraseDups := by
  induction as using List.reverseRecOn with
  | nil => rfl
  | append_singleton as a ih =>
    rw [List.foldl_append, List.foldl_cons, List.foldl_nil, keys_alter, ih, List.map_append,
      List.map_singleton, eraseDups_concat]
    simp only [List.mem_eraseDups]

/-- If the keys are different, what is listed under a key is what is found there. -/
theorem mem_iff_lookup {entries : List (κ × α)} (h : (entries.map Prod.fst).Nodup) {key : κ}
    {value : α} : (key, value) ∈ entries ↔ entries.lookup key = some value := by
  constructor
  · intro hmem
    obtain ⟨before, after, rfl⟩ := List.append_of_mem hmem
    refine List.lookup_eq_some_iff.mpr ⟨before, after, rfl, fun pair hpair => ?_⟩
    rw [List.map_append, List.map_cons] at h
    have hne := (List.nodup_cons.mp (List.nodup_middle.mp h)).1
    simp only [bne_iff_ne, ne_eq]
    rintro rfl
    exact hne (by simp [List.mem_map_of_mem hpair])
  · intro hlookup
    obtain ⟨before, after, rfl, -⟩ := List.lookup_eq_some_iff.mp hlookup
    simp

theorem lookup_foldl_insert (f : α → κ) (as : List α) (key : κ) :
    (as.foldl (fun index a => insert (f a) a index) []).lookup key =
      (as.filter (f · = key)).getLast? := by
  induction as using List.reverseRecOn with
  | nil => rfl
  | append_singleton as a ih =>
    rw [List.foldl_append, List.foldl_cons, List.foldl_nil, lookup_insert, ih, List.filter_append,
      List.getLast?_append]
    by_cases h : f a = key
    · simp [h]
    · simp [h, Ne.symm h]

theorem lookup_foldl_getD (f : α → κ) (g : α → β) (as : List α) (key : κ) :
    (as.foldl (fun index a => alter (f a) (·.getD (g a)) index) []).lookup key =
      (as.find? (f · = key)).map g := by
  induction as using List.reverseRecOn with
  | nil => rfl
  | append_singleton as a ih =>
    rw [List.foldl_append, List.foldl_cons, List.foldl_nil, lookup_alter, List.find?_append]
    by_cases h : key = f a
    · subst h
      rw [if_pos rfl, ih]
      cases as.find? (f · = f a) <;> simp
    · rw [if_neg h, ih]
      simp [Ne.symm h]

theorem push_map {keys : List κ} (h : keys.Nodup) (key : κ) (a : α) (g : κ → List α) :
    push key a (keys.map fun k => (k, g k)) =
      if key ∈ keys then keys.map fun k => (k, if k = key then g k ++ [a] else g k)
      else keys.map (fun k => (k, g k)) ++ [(key, [a])] := by
  induction keys with
  | nil => rfl
  | cons first keys ih =>
    obtain ⟨hfirst, hkeys⟩ := List.nodup_cons.mp h
    have ih := ih hkeys
    by_cases heq : first = key
    · subst heq
      have hsame : ∀ k ∈ keys, (k, g k) = (k, if k = first then g k ++ [a] else g k) :=
        fun k hk => by rw [if_neg (ne_of_mem_of_not_mem hk hfirst)]
      simp only [push, alter, List.map_cons, List.mem_cons, true_or, if_true]
      rw [List.map_congr_left hsame]
    · simp only [push, alter, List.map_cons, List.mem_cons, heq, Ne.symm heq, false_or,
        if_false] at ih ⊢
      rw [ih]
      split <;> rfl

/-- Each key that occurs stands once, with the elements that have it. -/
theorem foldl_push_eq (f : α → κ) (as : List α) :
    as.foldl (fun index a => push (f a) a index) [] =
      (as.map f).eraseDups.map fun key => (key, as.filter (f · = key)) := by
  induction as using List.reverseRecOn with
  | nil => rfl
  | append_singleton as a ih =>
    rw [List.foldl_append, List.foldl_cons, List.foldl_nil, ih, push_map (nodup_eraseDups _),
      List.map_append, List.map_singleton, eraseDups_concat]
    simp only [List.mem_eraseDups]
    by_cases h : f a ∈ as.map f
    · rw [if_pos h, if_pos h]
      refine List.map_congr_left fun key _ => ?_
      by_cases hkey : key = f a
      · simp [hkey, List.filter_append]
      · simp [hkey, Ne.symm hkey, List.filter_append]
    · have hnone : as.filter (f · = f a) = [] := filter_key_eq_nil h
      rw [if_neg h, if_neg h, List.map_append, List.map_singleton]
      congr 1
      · refine List.map_congr_left fun key hkey => ?_
        have hne : f a ≠ key := fun heq => h (heq ▸ List.mem_eraseDups.mp hkey)
        simp [hne, List.filter_append]
      · simp [hnone, List.filter_append]

end Keyed

namespace Sorted

variable {key : α → Nat}

theorem filter_insertBy (a : α) (bs : List α) (rank : Nat) :
    (insertBy key a bs).filter (key · = rank) = (a :: bs).filter (key · = rank) := by
  induction bs with
  | nil => rfl
  | cons b bs ih =>
    unfold insertBy
    split
    · rfl
    · next hlt =>
      rw [List.filter_cons, ih]
      grind

/-- Sorting keeps the order of the elements with the same number. -/
theorem filter_sortBy (as : List α) (rank : Nat) :
    (sortBy key as).filter (key · = rank) = as.filter (key · = rank) := by
  induction as with
  | nil => rfl
  | cons a as ih => rw [sortBy, filter_insertBy, List.filter_cons, List.filter_cons, ih]

end Sorted

end StrongCyclic
