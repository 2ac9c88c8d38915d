import Mathlib.Data.List.Induction
import StrongCyclic.Proofs.Text.Numeral

/-!
The spellings of a number. A text is read as a number if it is the numeral of the number, with any
number of zeros before it and perhaps a plus sign before these; so each number has many spellings,
and its numeral is one of them.
-/

namespace StrongCyclic.Text

/-- The text is the numeral of the number behind zeros, or behind a plus sign and zeros. -/
def Spells (s : String) (n : Nat) : Prop :=
  ∃ sign zeros, (sign = [] ∨ sign = ['+']) ∧
    s.toList = sign ++ List.replicate zeros '0' ++ (toString n).toList

theorem spells_toString (n : Nat) : Spells (toString n) n :=
  ⟨[], 0, .inl rfl, rfl⟩

theorem digitChar_of_isDigit {c : Char} (h : c.isDigit = true) :
    (c.toNat - 48).digitChar = c := by
  have hchars : ∀ code ≤ 57, 48 ≤ code → (code - 48).digitChar = Char.ofNat code := by decide
  obtain ⟨hlow, hhigh⟩ := toNat_of_isDigit h
  rw [hchars _ hhigh hlow, Char.ofNat_toNat]

/-- A run of digits is the numeral of its value behind zeros. -/
theorem eq_zeros_append_toDigits {digits : List Char} (hne : digits ≠ [])
    (hdigits : ∀ c ∈ digits, c.isDigit = true) :
    ∃ zeros, digits = List.replicate zeros '0' ++
      Nat.toDigits 10 (Nat.ofDigitChars 10 digits 0) := by
  induction digits using List.reverseRecOn with
  | nil => exact absurd rfl hne
  | append_singleton front last ih =>
    have hlast : last.isDigit = true := hdigits last (by simp)
    have hsmall : last.toNat - 48 < 10 := by
      have := toNat_of_isDigit hlast
      omega
    have hnumeral : Nat.toDigits 10 (last.toNat - 48) = [last] := by
      rw [Nat.toDigits_of_lt_base hsmall, digitChar_of_isDigit hlast]
    have hvalue : Nat.ofDigitChars 10 (front ++ [last]) 0 =
        10 * Nat.ofDigitChars 10 front 0 + (last.toNat - 48) := by
      simp [Nat.ofDigitChars_append, Nat.ofDigitChars_cons]
    rw [hvalue]
    by_cases hfront : front = []
    · subst hfront
      exact ⟨0, by simp [hnumeral]⟩
    obtain ⟨zeros, hzeros⟩ := ih hfront fun c hc => hdigits c (List.mem_append_left _ hc)
    by_cases hzero : Nat.ofDigitChars 10 front 0 = 0
    · -- the digits so far are all zeros, and the numeral starts with the last digit
      rw [hzero, Nat.toDigits_zero] at hzeros
      refine ⟨zeros + 1, ?_⟩
      rw [hzero, Nat.mul_zero, Nat.zero_add, hnumeral, List.replicate_succ', ← hzeros]
    · refine ⟨zeros, ?_⟩
      rw [← Nat.toDigits_append_toDigits (by decide) (Nat.pos_of_ne_zero hzero) hsmall, hnumeral,
        ← List.append_assoc, ← hzeros]

theorem digitsValue?_cons_zero {digits : List Char} (h : digits ≠ []) :
    digitsValue? ('0' :: digits) = digitsValue? digits := by
  simp [digitsValue?, h]

theorem digitsValue?_zeros_append_toString (zeros n : Nat) :
    digitsValue? (List.replicate zeros '0' ++ (toString n).toList) = some n := by
  induction zeros with
  | zero => exact digitsValue?_toString n
  | succ zeros ih =>
    rw [List.replicate_succ, List.cons_append, digitsValue?_cons_zero (by simp), ih]

theorem digitsValue?_eq_some_iff {digits : List Char} {n : Nat} :
    digitsValue? digits = some n ↔
      ∃ zeros, digits = List.replicate zeros '0' ++ (toString n).toList := by
  constructor
  · intro h
    unfold digitsValue? at h
    split at h
    · next hdigits =>
      obtain ⟨hne, hall⟩ := hdigits
      obtain ⟨zeros, hzeros⟩ := eq_zeros_append_toDigits hne (List.all_eq_true.mp hall)
      have hvalue : Nat.ofDigitChars 10 digits 0 = n := Option.some.inj h
      rw [hvalue, ← Nat.toList_repr, ← Nat.toString_eq_repr] at hzeros
      exact ⟨zeros, hzeros⟩
    · cases h
  · rintro ⟨zeros, rfl⟩
    exact digitsValue?_zeros_append_toString zeros n

theorem naturalOf?_of_ne_plus {cs : List Char} (h : cs.head? ≠ some '+') :
    naturalOf? cs = below? wordLimit (digitsValue? cs) := by
  unfold naturalOf?
  split
  · exact absurd rfl h
  · rfl

theorem head?_zeros_append_toString (zeros n : Nat) :
    (List.replicate zeros '0' ++ (toString n).toList).head? ≠ some '+' := by
  intro h
  have hmem := List.mem_of_head? h
  rcases List.mem_append.mp hmem with hmem | hmem
  · exact absurd (List.eq_of_mem_replicate hmem) (by decide)
  · exact absurd (isDigit_of_mem_toString hmem) (by decide)

/-- The spellings of a number below 2^64 are read as the number, and nothing else is. -/
theorem natural?_eq_some_iff {s : String} {n : Nat} :
    natural? s = some n ↔ n < wordLimit ∧ Spells s n := by
  constructor
  · intro h
    obtain ⟨digits, htext, hvalue, hlt⟩ := naturalOf?_eq_some h
    obtain ⟨zeros, rfl⟩ := digitsValue?_eq_some_iff.mp hvalue
    rcases htext with htext | htext
    · exact ⟨hlt, [], zeros, .inl rfl, htext⟩
    · exact ⟨hlt, ['+'], zeros, .inr rfl, htext⟩
  · rintro ⟨hlt, sign, zeros, rfl | rfl, htext⟩
    · rw [natural?, htext, List.nil_append,
        naturalOf?_of_ne_plus (head?_zeros_append_toString zeros n),
        digitsValue?_zeros_append_toString]
      exact below?_eq_some_iff.mpr ⟨rfl, hlt⟩
    · rw [natural?, htext]
      change below? wordLimit (digitsValue? (List.replicate zeros '0' ++ _)) = _
      rw [digitsValue?_zeros_append_toString]
      exact below?_eq_some_iff.mpr ⟨rfl, hlt⟩

example : natural? "+007" = some 7 ∧ natural? "7" = some 7 ∧ natural? "" = none ∧
    natural? "++7" = none := by
  decide

end StrongCyclic.Text
