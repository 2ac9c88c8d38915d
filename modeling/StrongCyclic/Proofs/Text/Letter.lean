import StrongCyclic.Proofs.Text.Numeral
import StrongCyclic.Text.Letter

/-!
Letters and numerals against the other characters. No letter or numeral is a blank, by comparing the
ranges of the tables with those of the blanks, and no digit is a letter.
-/

namespace StrongCyclic.Text

/-- The blanks, as ranges of codes. -/
def blankRanges : List (Nat × Nat) :=
  [(9, 13), (0x20, 0x20), (0x85, 0x85), (0xA0, 0xA0), (0x1680, 0x1680), (0x2000, 0x200A),
    (0x2028, 0x2029), (0x202F, 0x202F), (0x205F, 0x205F), (0x3000, 0x3000)]

theorem blankRanges_apart :
    (blankRanges.all fun b => (letterRanges.toList ++ numeralRanges.toList).all fun r =>
      r.2.blt b.1 || b.2.blt r.1) = true := by
  decide +kernel

theorem exists_blankRange {c : Char} (h : isBlank c = true) :
    ∃ b ∈ blankRanges, b.1 ≤ c.toNat ∧ c.toNat ≤ b.2 := by
  simp only [isBlank, Bool.or_eq_true, Bool.and_eq_true, decide_eq_true_eq, beq_iff_eq] at h
  simp only [blankRanges, List.mem_cons, List.not_mem_nil, or_false, exists_eq_or_imp,
    exists_eq_left]
  omega

theorem inRanges_iff {ranges : Array (Nat × Nat)} {code : Nat} :
    inRanges ranges code = true ↔ ∃ r ∈ ranges.toList, r.1 ≤ code ∧ code ≤ r.2 := by
  simp only [inRanges, ← Array.any_toList, List.any_eq_true, Bool.and_eq_true, decide_eq_true_eq]

theorem isAlpha_iff {c : Char} : c.isAlpha = true ↔
    65 ≤ c.toNat ∧ c.toNat ≤ 90 ∨ 97 ≤ c.toNat ∧ c.toNat ≤ 122 := by
  delta Char.isAlpha Char.isUpper Char.isLower
  simp only [Bool.or_eq_true, Bool.and_eq_true, decide_eq_true_eq, UInt32.le_iff_toNat_le,
    ge_iff_le]
  exact Iff.rfl

/-- The letters and numerals past the first 128 characters are in the tables. -/
theorem isLetterOrNumeral_cases {c : Char} (h : isLetterOrNumeral c = true) :
    c.isAlpha = true ∨ c.isDigit = true ∨
      ∃ r ∈ letterRanges.toList ++ numeralRanges.toList, r.1 ≤ c.toNat ∧ c.toNat ≤ r.2 := by
  rw [isLetterOrNumeral, isLetter, Bool.or_eq_true] at h
  split at h
  · exact h.imp_right .inl
  · rw [inRanges_iff, inRanges_iff] at h
    simp only [List.mem_append]
    rcases h with ⟨r, hr, hin⟩ | ⟨r, hr, hin⟩
    · exact .inr (.inr ⟨r, .inl hr, hin⟩)
    · exact .inr (.inr ⟨r, .inr hr, hin⟩)

theorem isBlank_of_isLetterOrNumeral {c : Char} (h : isLetterOrNumeral c = true) :
    isBlank c = false := by
  refine Bool.eq_false_iff.mpr fun hblank => ?_
  rcases isLetterOrNumeral_cases h with halpha | hdigit | ⟨r, hr, hin⟩
  · have hcode := isAlpha_iff.mp halpha
    simp only [isBlank, Bool.or_eq_true, Bool.and_eq_true, decide_eq_true_eq, beq_iff_eq] at hblank
    omega
  · exact absurd hblank (by simp [isBlank_of_isDigit hdigit])
  · obtain ⟨b, hb, hcode⟩ := exists_blankRange hblank
    have hapart := List.all_eq_true.mp (List.all_eq_true.mp blankRanges_apart b hb) r hr
    rw [Bool.or_eq_true, Nat.blt_eq, Nat.blt_eq] at hapart
    omega

theorem isLetter_of_isDigit {c : Char} (h : c.isDigit = true) : isLetter c = false := by
  obtain ⟨hlow, hhigh⟩ := toNat_of_isDigit h
  rw [isLetter, if_pos (by omega)]
  refine Bool.eq_false_iff.mpr fun halpha => ?_
  have hcode := isAlpha_iff.mp halpha
  omega

end StrongCyclic.Text
