import Mathlib.Data.List.Induction
import StrongCyclic.Answer.Output
import StrongCyclic.Proofs.Answer.Grammar
import StrongCyclic.Proofs.Fallible

/-!
The numbers in the output of a solver. An integer is only read if it fits into 64 bits, so every
number that an answer carries, its own and those in the arguments of its atoms, is a 64-bit word.
-/

namespace StrongCyclic

open Text (wordLimit)
open Fallible (bind_eq_ok)

/-- The numbers in the arguments of the atom are words. -/
def Atom.InWords (a : Atom) : Prop :=
  ∀ i value, a.index? i = some value → value < wordLimit

/-- The numbers in the answer are words. -/
structure Answer.InWords (answer : Answer) : Prop where
  number_lt : answer.number < wordLimit
  atoms : ∀ a ∈ answer.atoms, a.InWords

namespace Term

/-- The integers among the terms are words, unless they are negative. -/
def InWords (terms : List Term) : Prop :=
  ∀ value, .int value ∈ terms → value.toNat < wordLimit

theorem DerivesInteger.toNat_lt {cs : List Char} {value : Int} (h : DerivesInteger cs value) :
    value.toNat < wordLimit := by
  have hhalf : wordLimit / 2 < wordLimit := by decide
  cases h with
  | natural _ hlt =>
    rw [Int.toNat_natCast]
    exact Nat.lt_trans hlt hhalf
  | negated =>
    rw [Int.toNat_neg_natCast]
    decide

theorem DerivesList.inWords {cs : List Char} {terms : List Term} (h : DerivesList cs terms) :
    InWords terms := by
  intro value hvalue
  obtain ⟨ds, hderives⟩ := h.exists_derives _ hvalue
  cases hderives with
  | int h => exact h.toNat_lt

theorem DerivesArgs.inWords {cs : List Char} {terms : List Term} (h : DerivesArgs cs terms) :
    InWords terms := by
  cases h with
  | none => simp [InWords]
  | some h => exact h.inWords

end Term

theorem Atom.Derives.inWords {cs : List Char} {a : Atom} (h : Derives cs a) :
    Term.InWords a.args := by
  cases h with
  | constant => simp [Term.InWords]
  | applied _ hargs => exact hargs.inWords

theorem Atom.inWords_of_parse? {text : String} {a : Atom} (h : parse? text = some a) :
    a.InWords := by
  have hargs := (parse?_eq_some_iff.mp h).inWords
  intro i value hindex
  obtain ⟨integer, hint, hvalue⟩ := Option.bind_eq_some_iff.mp hindex
  obtain ⟨t, ht, hterm⟩ := Option.bind_eq_some_iff.mp hint
  cases t with
  | int integer' =>
    cases hterm
    split at hvalue
    · cases hvalue
      exact hargs integer (List.mem_of_getElem? ht)
    · cases hvalue
  | _ => cases hterm

namespace SolverOutput

theorem inWords_push {out : SolverOutput} (hout : ∀ answer ∈ out.answers, answer.InWords)
    {number : Nat} (hnumber : number < wordLimit) {atoms : List Atom}
    (hatoms : ∀ a ∈ atoms, a.InWords) (line : String) :
    ∀ answer ∈ ((out.note line).push ⟨number, atoms⟩).answers, answer.InWords := by
  intro answer hanswer
  rcases List.mem_append.mp hanswer with hanswer | hanswer
  · exact hout answer hanswer
  · rw [List.mem_singleton.mp hanswer]
    exact ⟨hnumber, hatoms⟩

theorem lt_of_readNumber {line number : Nat} {text : String}
    (h : Answer.readNumber line text = .ok number) : number < wordLimit := by
  unfold Answer.readNumber at h
  split at h
  · next n hn =>
    cases h
    exact Text.lt_of_natural? hn
  · cases h

theorem inWords_readAtoms {number : Nat} {line : String} {atoms : List Atom}
    (h : Answer.readAtoms number line = .ok atoms) : ∀ a ∈ atoms, a.InWords := by
  intro a ha
  obtain ⟨text, -, htext⟩ := Fallible.exists_of_mem_mapM h ha
  split at htext
  · next a' ha' =>
    cases htext
    exact Atom.inWords_of_parse? ha'
  · cases htext

/-- Reading goes on with the lines after the one that is read, or after it and its list of atoms. -/
theorem inWords_readFrom {out' : SolverOutput} (lines : List String) :
    ∀ {number : Nat} {out : SolverOutput}, (∀ answer ∈ out.answers, answer.InWords) →
      readFrom number out lines = .ok out' → ∀ answer ∈ out'.answers, answer.InWords := by
  induction lines using List.twoStepInduction with
  | nil =>
    intro number out hout h
    cases h
    exact hout
  | singleton line =>
    intro number out hout h
    rw [readFrom] at h
    split at h
    · cases h
      exact hout
    · obtain ⟨n, hn, h⟩ := bind_eq_ok.mp h
      cases h
      exact inWords_push hout (lt_of_readNumber hn) (by simp) _
  | cons_cons line atomLine rest ih ihRest =>
    intro number out hout h
    rw [readFrom] at h
    split at h
    · exact ihRest atomLine (by exact hout) h
    · obtain ⟨n, hn, h⟩ := bind_eq_ok.mp h
      obtain ⟨atoms, hatoms, h⟩ := bind_eq_ok.mp h
      exact ih (inWords_push hout (lt_of_readNumber hn) (inWords_readAtoms hatoms) _) h

/-- The numbers in the answers that are read from the output of a solver are words. -/
theorem inWords_of_parse {text : String} {out : SolverOutput} (h : parse text = .ok out) :
    ∀ answer ∈ out.answers, answer.InWords :=
  inWords_readFrom _ (by simp) h

end SolverOutput

end StrongCyclic
