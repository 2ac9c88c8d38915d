import StrongCyclic.Proofs.Answer.Grammar

/-!
Written terms. The written form of a readable term derives it, so it comes back when it is read: in a
string nothing is escaped, and a list of arguments is written with a comma between any two.
-/

namespace StrongCyclic

namespace Term

open Text (wordLimit)

/-- The term comes back when its written form is read. -/
inductive Readable : Term → Prop
  /-- An integer of 64 bits, one of them for the sign. -/
  | int {value : Int} : -((wordLimit / 2 : Nat) : Int) ≤ value → value < (wordLimit / 2 : Nat) →
    Readable (.int value)
  /-- Nothing is escaped in a string, so it has no quote, no backslash and no line feed. -/
  | str {text : String} : (∀ c ∈ text.toList, c ≠ '"' ∧ c ≠ '\\' ∧ c ≠ '\n') → Readable (.str text)
  | sym {name : String} : IsName name → Readable (.sym name)
  | func {name : String} {args : List Term} : name = "" ∨ IsName name →
    (∀ t ∈ args, Readable t) → Readable (.func name args)

theorem derivesInteger_toString {value : Int} (hlow : -((wordLimit / 2 : Nat) : Int) ≤ value)
    (hhigh : value < (wordLimit / 2 : Nat)) : DerivesInteger (toString value).toList value := by
  cases value with
  | ofNat n =>
    have hn : n < wordLimit / 2 := by
      rw [Int.ofNat_eq_natCast] at hhigh
      omega
    exact .natural (isNumeral_toString n) hn
  | negSucc n =>
    have hn : n + 1 ≤ wordLimit / 2 := by
      rw [Int.negSucc_eq] at hlow
      omega
    have htext : (toString (Int.negSucc n)).toList = '-' :: (toString (n + 1)).toList := by
      change ("-" ++ toString (n + 1)).toList = _
      simp
    rw [htext]
    exact .negated (isNumeral_toString (n + 1)) hn

theorem derivesQuoted_self {cs : List Char} (h : ∀ c ∈ cs, c ≠ '"' ∧ c ≠ '\\' ∧ c ≠ '\n') :
    DerivesQuoted cs cs := by
  induction cs with
  | nil => exact .nil
  | cons c cs ih =>
    obtain ⟨⟨hquote, hbackslash, -⟩, hcs⟩ := List.forall_mem_cons.mp h
    exact .char hquote hbackslash (ih hcs)

theorem toList_textList_cons {t : Term} {ts : List Term} (h : ts ≠ []) :
    (textList (t :: ts)).toList = t.text.toList ++ ',' :: (textList ts).toList := by
  rw [textList]
  · simp
  · exact h

theorem derivesList_textList {args : List Term} (hne : args ≠ [])
    (h : ∀ t ∈ args, DerivesTerm t.text.toList t) : DerivesList (textList args).toList args := by
  induction args with
  | nil => exact absurd rfl hne
  | cons t ts ih =>
    obtain ⟨ht, hts⟩ := List.forall_mem_cons.mp h
    by_cases hnil : ts = []
    · rw [hnil, textList]
      exact .single ht
    · rw [toList_textList_cons hnil]
      exact .cons ht (ih hnil hts)

theorem derivesArgs_textList {args : List Term} (h : ∀ t ∈ args, DerivesTerm t.text.toList t) :
    DerivesArgs ('(' :: ((textList args).toList ++ [')'])) args := by
  by_cases hnil : args = []
  · rw [hnil, textList]
    exact .none
  · exact .some (derivesList_textList hnil h)

/-- The written form of a readable term derives it. -/
theorem Readable.derives {t : Term} (h : Readable t) : DerivesTerm t.text.toList t := by
  induction h with
  | int hlow hhigh => exact .int (derivesInteger_toString hlow hhigh)
  | @str text htext =>
    have hderives := DerivesTerm.str (derivesQuoted_self htext)
    rw [String.ofList_toList] at hderives
    simpa [Term.text] using hderives
  | sym hname => exact .sym hname
  | @func name args hname hargs ih =>
    have htext : (Term.func name args).text.toList =
        name.toList ++ '(' :: ((textList args).toList ++ [')']) := by
      simp [Term.text]
    rw [htext]
    rcases hname with rfl | hname
    · exact .tuple (derivesArgs_textList ih)
    · exact .func hname (derivesArgs_textList ih)

end Term

end StrongCyclic
