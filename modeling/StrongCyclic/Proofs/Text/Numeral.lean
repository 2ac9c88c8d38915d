import StrongCyclic.Proofs.Text.Plain
import StrongCyclic.Text.Numeral

/-!
Decimal numerals. The numeral of a 64-bit word is read back as the word, and it has nothing in it
that a mark between the parts of a line could be taken for.
-/

namespace StrongCyclic.Text

theorem toNat_of_isDigit {c : Char} (h : c.isDigit = true) : 48 ≤ c.toNat ∧ c.toNat ≤ 57 := by
  simpa [Char.isDigit, UInt32.le_iff_toNat_le, ← Char.toNat_val] using h

theorem isBlank_of_isDigit {c : Char} (h : c.isDigit = true) : isBlank c = false := by
  obtain ⟨hlow, hhigh⟩ := toNat_of_isDigit h
  simp only [isBlank, Bool.or_eq_false_iff, Bool.and_eq_false_iff, decide_eq_false_iff_not,
    beq_eq_false_iff_ne]
  omega

theorem isDigit_of_mem_toString {n : Nat} {c : Char} (h : c ∈ (toString n).toList) :
    c.isDigit = true := by
  rw [Nat.toString_eq_repr, Nat.toList_repr] at h
  exact Nat.isDigit_of_mem_toDigits (by decide) (by decide) h

theorem plain_toString (n : Nat) : Plain (toString n) :=
  plain_of_not_isBlank fun _ hc => isBlank_of_isDigit (isDigit_of_mem_toString hc)

theorem exists_cons_toString (n : Nat) :
    ∃ c cs, (toString n).toList = c :: cs ∧ c.isDigit = true := by
  have hne : (toString n).toList ≠ [] := by
    rw [Nat.toString_eq_repr, Nat.toList_repr]
    exact Nat.toDigits_ne_nil
  obtain ⟨c, cs, hcs⟩ := List.exists_cons_of_ne_nil hne
  exact ⟨c, cs, hcs, isDigit_of_mem_toString (hcs ▸ List.mem_cons_self)⟩

/-- A text that starts with a numeral is none that starts with anything else. -/
theorem toString_append_ne {n : Nat} {s t : String}
    (h : ∀ c ∈ t.toList.head?, c.isDigit = false) : toString n ++ s ≠ t := by
  rintro rfl
  obtain ⟨c, cs, hcs, hdigit⟩ := exists_cons_toString n
  have hhead : c ∈ (toString n ++ s).toList.head? := by
    rw [String.toList_append, hcs]
    rfl
  exact absurd (h c hhead) (by simp [hdigit])

theorem digitsValue?_toString (n : Nat) : digitsValue? (toString n).toList = some n := by
  have hvalue := @Nat.ofDigitChars_ten_toDigits n
  rw [Nat.ofDigitChars_eq_foldl, ← Nat.toList_repr, ← Nat.toString_eq_repr] at hvalue
  have hall : (toString n).toList.all Char.isDigit = true :=
    List.all_eq_true.mpr fun _ => isDigit_of_mem_toString
  rw [digitsValue?, if_pos ⟨by simp, hall⟩]
  exact congrArg some hvalue

theorem toString_injective {m n : Nat} (h : toString m = toString n) : m = n := by
  have hvalue := digitsValue?_toString m
  rw [h, digitsValue?_toString] at hvalue
  exact (Option.some.inj hvalue).symm

/-- A numeral ends where the digits end. -/
theorem numeral_append_inj {m n : Nat} {cs ds : List Char}
    (hcs : ∀ c ∈ cs.head?, c.isDigit = false) (hds : ∀ c ∈ ds.head?, c.isDigit = false)
    (h : (toString m).toList ++ cs = (toString n).toList ++ ds) : m = n ∧ cs = ds := by
  obtain ⟨hnumeral, hrest⟩ := append_inj_of_forall (fun _ => isDigit_of_mem_toString)
    (fun _ => isDigit_of_mem_toString) hcs hds h
  exact ⟨toString_injective (String.toList_inj.mp hnumeral), hrest⟩

theorem below?_eq_some_iff {limit n : Nat} {value : Option Nat} :
    below? limit value = some n ↔ value = some n ∧ n < limit := by
  simp [below?, Option.filter_eq_some_iff]

theorem naturalOf?_eq_some {cs : List Char} {n : Nat} (h : naturalOf? cs = some n) :
    ∃ digits, (cs = digits ∨ cs = '+' :: digits) ∧ digitsValue? digits = some n ∧
      n < wordLimit := by
  unfold naturalOf? at h
  split at h
  · next digits =>
    exact ⟨digits, .inr rfl, below?_eq_some_iff.mp h⟩
  · exact ⟨cs, .inl rfl, below?_eq_some_iff.mp h⟩

theorem lt_of_natural? {s : String} {n : Nat} (h : natural? s = some n) : n < wordLimit := by
  obtain ⟨-, -, -, hlt⟩ := naturalOf?_eq_some h
  exact hlt

theorem natural?_toString_eq (n : Nat) : natural? (toString n) = below? wordLimit (some n) := by
  obtain ⟨c, cs, hcs, hdigit⟩ := exists_cons_toString n
  rw [natural?, naturalOf?, digitsValue?_toString]
  rintro cs' hplus
  rw [hcs] at hplus
  cases hplus
  exact absurd hdigit (by decide)

theorem natural?_toString {n : Nat} (h : n < wordLimit) : natural? (toString n) = some n := by
  rw [natural?_toString_eq, below?_eq_some_iff]
  exact ⟨rfl, h⟩

theorem isDigit_of_digitsValue? {cs : List Char} {n : Nat} (h : digitsValue? cs = some n) :
    ∀ c ∈ cs, c.isDigit = true := by
  unfold digitsValue? at h
  split at h
  · next hdigits => exact List.all_eq_true.mp hdigits.2
  · cases h

/-! ### Numerals with a sign -/

theorem mem_toString_int {value : Int} {c : Char} (h : c ∈ (toString value).toList) :
    c = '-' ∨ c.isDigit = true := by
  cases value with
  | ofNat n => exact .inr (isDigit_of_mem_toString (n := n) h)
  | negSucc n =>
    change c ∈ ("-" ++ toString (n + 1)).toList at h
    rw [String.toList_append, List.mem_append] at h
    exact h.imp (by simp) isDigit_of_mem_toString

theorem toString_int_ne {m n : Nat} : toString (Int.ofNat m) ≠ toString (Int.negSucc n) := by
  intro h
  have hmem : '-' ∈ (toString m).toList := by
    rw [show toString m = "-" ++ toString (n + 1) from h]
    simp
  exact absurd (isDigit_of_mem_toString hmem) (by decide)

theorem toString_int_injective {a b : Int} (h : toString a = toString b) : a = b := by
  cases a with
  | ofNat m =>
    cases b with
    | ofNat n => exact congrArg Int.ofNat (toString_injective h)
    | negSucc n => exact absurd h toString_int_ne
  | negSucc m =>
    cases b with
    | ofNat n => exact absurd h.symm toString_int_ne
    | negSucc n =>
      have hnumeral : toString (m + 1) = toString (n + 1) := by
        have hchars := congrArg String.toList (show "-" ++ toString (m + 1) = "-" ++ toString (n + 1) from h)
        rw [String.toList_append, String.toList_append] at hchars
        exact String.toList_inj.mp (List.append_cancel_left hchars)
      have heq := toString_injective hnumeral
      rw [Nat.succ.inj heq]

end StrongCyclic.Text
