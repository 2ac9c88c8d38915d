/-!
Stable sorting by a natural key: elements with equal keys keep their order. Insertion puts an
element in front of the first one whose key is not smaller, and elements are inserted from the last
to the first.
-/

namespace StrongCyclic.Sorted

variable {α : Type}

/-- Puts an element in front of the first one whose key is not smaller. -/
def insertBy (key : α → Nat) (a : α) : List α → List α
  | [] => [a]
  | b :: bs => if key a ≤ key b then a :: b :: bs else b :: insertBy key a bs

/-- Sorts by increasing key and keeps the order of elements with equal keys. -/
def sortBy (key : α → Nat) : List α → List α
  | [] => []
  | a :: as => insertBy key a (sortBy key as)

theorem insertBy_perm (key : α → Nat) (a : α) (bs : List α) :
    (insertBy key a bs).Perm (a :: bs) := by
  induction bs with
  | nil => exact List.Perm.refl _
  | cons b bs ih =>
    by_cases h : key a ≤ key b
    · simp [insertBy, h]
    · simp only [insertBy, h, if_false]
      exact (ih.cons b).trans (List.Perm.swap a b bs)

theorem sortBy_perm (key : α → Nat) (as : List α) : (sortBy key as).Perm as := by
  induction as with
  | nil => exact List.Perm.refl _
  | cons a as ih => exact (insertBy_perm key a _).trans (ih.cons a)

end StrongCyclic.Sorted
