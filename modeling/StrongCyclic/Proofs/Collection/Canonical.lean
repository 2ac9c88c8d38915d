import Mathlib.Data.List.Sort
import StrongCyclic.Collection.IdMap
import StrongCyclic.Collection.Sorted

/-!
Canonical forms. A list by increasing numbers is determined by what is looked up in it, and a list that
is sorted by keys that are all different by its members.
-/

namespace StrongCyclic

namespace IdMap

variable {α : Type} {entries entries' : List (Nat × α)}

theorem Increasing.mem_iff (h : Increasing entries) {entry : Nat × α} :
    entry ∈ entries ↔ entries.lookup entry.1 = some entry.2 := by
  induction entries with
  | nil => simp
  | cons first entries ih =>
    simp only [Increasing, List.map_cons, List.pairwise_cons] at h
    rw [List.mem_cons, lookup_cons, ih h.2]
    by_cases hkey : entry.1 = first.1
    · have hnone : entries.lookup first.1 = none :=
        lookup_eq_none_of_forall_lt fun other hother => h.1 other.1 (List.mem_map_of_mem hother)
      rw [hkey, hnone, if_pos rfl]
      simp [Prod.ext_iff, hkey, eq_comm]
    · have hne : entry ≠ first := fun heq => hkey (congrArg Prod.fst heq)
      simp [hkey, hne]

theorem eq_of_lookup (h : Increasing entries) (h' : Increasing entries')
    (hlookup : ∀ id, entries.lookup id = entries'.lookup id) : entries = entries' := by
  have hirrefl : Std.Irrefl fun a b : Nat × α => a.1 < b.1 := ⟨fun a => Nat.lt_irrefl a.1⟩
  have hantisymm : Std.Antisymm fun a b : Nat × α => a.1 < b.1 :=
    ⟨fun _ _ hab hba => absurd hba (Nat.lt_asymm hab)⟩
  refine List.Pairwise.eq_of_mem_iff (List.pairwise_map.mp h) (List.pairwise_map.mp h')
    fun entry => ?_
  rw [h.mem_iff, h'.mem_iff, hlookup]

end IdMap

namespace Sorted

variable {α : Type} {key : α → Nat} {as bs : List α}

theorem pairwise_insertBy (a : α) (h : bs.Pairwise (key · ≤ key ·)) :
    (insertBy key a bs).Pairwise (key · ≤ key ·) := by
  induction bs with
  | nil => exact List.pairwise_singleton _ a
  | cons b bs ih =>
    obtain ⟨hb, hbs⟩ := List.pairwise_cons.mp h
    unfold insertBy
    split
    · next hle =>
      refine List.pairwise_cons.mpr ⟨List.forall_mem_cons.mpr ⟨hle, fun c hc => ?_⟩, h⟩
      exact Nat.le_trans hle (hb c hc)
    · next hlt =>
      refine List.pairwise_cons.mpr ⟨fun c hc => ?_, ih hbs⟩
      rcases List.mem_cons.mp ((insertBy_perm key a bs).mem_iff.mp hc) with rfl | hc
      · exact Nat.le_of_not_le hlt
      · exact hb c hc

theorem pairwise_sortBy (as : List α) : (sortBy key as).Pairwise (key · ≤ key ·) := by
  induction as with
  | nil => exact List.Pairwise.nil
  | cons a as ih => exact pairwise_insertBy a ih

theorem sortBy_eq_self (h : as.Pairwise (key · ≤ key ·)) : sortBy key as = as := by
  induction as with
  | nil => rfl
  | cons a as ih =>
    obtain ⟨ha, has⟩ := List.pairwise_cons.mp h
    rw [sortBy, ih has]
    cases as with
    | nil => rfl
    | cons b bs => exact if_pos (ha b List.mem_cons_self)

/-- If no two elements have the same key, sorting forgets in which order they came. -/
theorem sortBy_eq_of_perm (hperm : as.Perm bs) (hkeys : (as.map key).Nodup) :
    sortBy key as = sortBy key bs := by
  have hsorted : (sortBy key as).Perm (sortBy key bs) :=
    (sortBy_perm key as).trans (hperm.trans (sortBy_perm key bs).symm)
  refine hsorted.eq_of_pairwise (fun a b ha hb hab hba => ?_) (pairwise_sortBy as)
    (pairwise_sortBy bs)
  have ha : a ∈ as := (sortBy_perm key as).mem_iff.mp ha
  have hb : b ∈ as := hperm.mem_iff.mpr ((sortBy_perm key bs).mem_iff.mp hb)
  exact List.inj_on_of_nodup_map hkeys ha hb (Nat.le_antisymm hab hba)

end Sorted

end StrongCyclic
