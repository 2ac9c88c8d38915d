import Mathlib.Data.List.Induction
import StrongCyclic.Guidance.Detection
import StrongCyclic.Proofs.Answer.Quoting
import StrongCyclic.Proofs.Answer.Words
import StrongCyclic.Proofs.Fallible

/-!
Output that has been cut off. A solver that is stopped leaves its output at any character, so behind
the last `Answer:` there may be no number, no list of atoms, or one that ends within an atom. An output
is read just if each announced answer has its number and lists complete atoms only, and the front of an
atom with arguments is never taken for an atom with arguments.
-/

namespace StrongCyclic

open Fallible

/-! ### Atoms -/

namespace Term

/-- Arguments end with their last bracket, so none are the front of others. -/
theorem DerivesArgs.append_eq_nil {cs rest : List Char} {args args' : List Term}
    (h : DerivesArgs cs args) (h' : DerivesArgs (cs ++ rest) args') : rest = [] := by
  obtain ⟨body, rfl, hread⟩ := h.readArgs_append
  obtain ⟨body', heq, hread'⟩ := h'.readArgs_append
  obtain rfl : body ++ rest = body' := (List.cons.inj heq).2
  have hall := hread' (3 * (body ++ rest).length) [] (Nat.le_refl _)
  have hfront := hread (3 * (body ++ rest).length) rest
    (by rw [List.length_append]; omega)
  rw [List.append_nil] at hall
  exact (Prod.mk.inj (Option.some.inj (hfront.symm.trans hall))).2

theorem DerivesArgs.head_not_continuesName {cs : List Char} {args : List Term}
    (h : DerivesArgs cs args) : ∀ c ∈ cs.head?, continuesName c = false := by
  obtain ⟨body, rfl⟩ := h.exists_cons
  intro c hc
  obtain rfl : '(' = c := by simpa using hc
  decide

end Term

namespace Atom

/-- The front of an atom is no atom, or it is a name without arguments. -/
theorem Derives.args_eq_nil_of_append {cut rest : List Char} {a b : Atom} (hcut : Derives cut b)
    (h : Derives (cut ++ rest) a) (hrest : rest ≠ []) : b.args = [] := by
  cases hcut with
  | constant => rfl
  | @applied name cs args hname hargs =>
    obtain ⟨body, rfl⟩ := hargs.exists_cons
    refine absurd ?_ hrest
    generalize hall : name.toList ++ '(' :: body ++ rest = all at h
    cases h with
    | @constant name' hname' =>
      have hmem : '(' ∈ name'.toList := by
        rw [← hall]
        simp
      exact absurd (hname'.continues _ hmem) (by decide)
    | @applied name' cs' args' hname' hargs' =>
      rw [List.append_assoc] at hall
      have hhead : ∀ c ∈ ('(' :: body ++ rest).head?, Term.continuesName c = false :=
        fun c hc => hargs.head_not_continuesName c hc
      obtain ⟨-, rfl⟩ := Text.append_inj_of_forall hname.continues hname'.continues hhead
        hargs'.head_not_continuesName hall
      exact hargs.append_eq_nil hargs'

/-- Of an atom that is cut off nothing is read, or a name without arguments. -/
theorem parse?_cut {cut rest : List Char} {a b : Atom} (h : Derives (cut ++ rest) a)
    (hrest : rest ≠ []) (hcut : parse? (String.ofList cut) = some b) : b.args = [] := by
  have hderives := parse?_eq_some_iff.mp hcut
  rw [String.toList_ofList] at hderives
  -- the cut starts as the atom does, so blanks are only taken off behind it
  have hhead : ∀ c ∈ cut.head?, Text.isBlank c = false := fun c hc => by
    obtain ⟨d, ds, hall, hd⟩ := h.exists_cons
    obtain ⟨tail, rfl⟩ := List.head?_eq_some_iff.mp hc
    rw [List.cons_append] at hall
    exact (List.cons.inj hall).1 ▸ hd
  obtain ⟨blanks, hblanks⟩ := Text.trimChars_leads cut
  rw [Text.dropWhile_eq_self_iff.mpr hhead] at hblanks
  rw [← hblanks, List.append_assoc] at h
  exact hderives.args_eq_nil_of_append h (by simp [hrest])

end Atom

/-! ### Announcements -/

/-- An answer that is announced: what stands behind `Answer:`, and the line behind it, if that has been
printed. -/
structure Announcement where
  number : String
  atomLine : Option String

namespace Announcement

/-- The texts between the blanks of the line of atoms. -/
def pieces (x : Announcement) : List String :=
  x.atomLine.elim [] Answer.splitAtoms

/-- The atoms that have been printed to their end. -/
def completeAtoms (x : Announcement) : List Atom :=
  x.pieces.filterMap Atom.parse?

/-- The answer has a number, and what is listed are complete atoms. -/
def Complete (x : Announcement) : Prop :=
  (Text.natural? (Text.trim x.number)).isSome ∧ ∀ piece ∈ x.pieces, (Atom.parse? piece).isSome

instance (x : Announcement) : Decidable x.Complete :=
  inferInstanceAs (Decidable (_ ∧ _))

end Announcement

namespace SolverOutput

/-- The answers that are announced in the lines. A list of atoms announces nothing. -/
def announcedIn : List String → List Announcement
  | [] => []
  | line :: rest =>
    match Text.afterPrefix? "Answer:" (Text.trim line) with
    | none => announcedIn rest
    | some number =>
      match rest with
      | [] => [⟨number, none⟩]
      | atomLine :: rest => ⟨number, some atomLine⟩ :: announcedIn rest

/-- The answers that are announced in the output. -/
def announced (text : String) : List Announcement :=
  announcedIn (Text.lines text)

/-- No announced answer has been cut off. -/
def Complete (text : String) : Prop :=
  ∀ x ∈ announced text, x.Complete

instance (text : String) : Decidable (Complete text) :=
  inferInstanceAs (Decidable (∀ x ∈ announced text, x.Complete))

end SolverOutput

/-! ### Reading -/

theorem forall₂_eq_some_iff {α β : Type} {f : α → Option β} {as : List α} {bs : List β} :
    List.Forall₂ (fun a b => f a = some b) as bs ↔
      (∀ a ∈ as, (f a).isSome) ∧ bs = as.filterMap f := by
  induction as generalizing bs with
  | nil => simp
  | cons a as ih =>
    rw [List.forall₂_cons_left_iff, List.forall_mem_cons]
    cases hfa : f a with
    | none => simp
    | some b => simp [ih, hfa, and_assoc]

namespace Answer

theorem readNumber_eq_ok {line n : Nat} {text : String} :
    readNumber line text = .ok n ↔ Text.natural? (Text.trim text) = some n := by
  unfold readNumber
  cases Text.natural? (Text.trim text) <;> simp

theorem readAtoms_eq_ok {number : Nat} {line : String} {atoms : List Atom} :
    readAtoms number line = .ok atoms ↔
      (∀ piece ∈ splitAtoms line, (Atom.parse? piece).isSome) ∧
        atoms = (splitAtoms line).filterMap Atom.parse? := by
  rw [readAtoms, mapM_eq_ok, ← forall₂_eq_some_iff]
  constructor
  · refine List.Forall₂.imp fun piece a hpiece => ?_
    split at hpiece
    · next hread => rw [hread, Except.ok.inj hpiece]
    · cases hpiece
  · refine List.Forall₂.imp fun piece a hpiece => ?_
    rw [hpiece]

end Answer

namespace SolverOutput

theorem readFrom_of_complete (lines : List String) :
    ∀ (number : Nat) (out : SolverOutput), (∀ x ∈ announcedIn lines, x.Complete) →
      ∃ out', readFrom number out lines = .ok out' ∧ out'.answers.map Answer.atoms =
        out.answers.map Answer.atoms ++ (announcedIn lines).map Announcement.completeAtoms := by
  induction lines using List.twoStepInduction with
  | nil =>
    intro number out h
    exact ⟨out, rfl, by simp [announcedIn]⟩
  | singleton line =>
    intro number out h
    rw [announcedIn] at h ⊢
    rw [readFrom]
    cases hafter : Text.afterPrefix? "Answer:" (Text.trim line) with
    | none =>
      simp only [hafter] at h ⊢
      exact ⟨_, rfl, by simp [announcedIn, note]⟩
    | some text =>
      simp only [hafter, List.forall_mem_singleton] at h ⊢
      obtain ⟨n, hn⟩ := Option.isSome_iff_exists.mp h.1
      rw [Answer.readNumber_eq_ok.mpr hn]
      exact ⟨_, rfl, by simp [push, note, Announcement.completeAtoms, Announcement.pieces]⟩
  | cons_cons line atomLine rest ih ihRest =>
    intro number out h
    rw [announcedIn] at h ⊢
    rw [readFrom]
    cases hafter : Text.afterPrefix? "Answer:" (Text.trim line) with
    | none =>
      simp only [hafter] at h ⊢
      exact ihRest atomLine _ _ h
    | some text =>
      simp only [hafter, List.forall_mem_cons] at h ⊢
      obtain ⟨⟨hnumber, hpieces⟩, hrest⟩ := h
      obtain ⟨n, hn⟩ := Option.isSome_iff_exists.mp hnumber
      rw [Answer.readNumber_eq_ok.mpr hn, ok_bind, Answer.readAtoms_eq_ok.mpr ⟨hpieces, rfl⟩,
        ok_bind]
      obtain ⟨out', hread, hanswers⟩ := ih (number + 2) _ hrest
      refine ⟨out', hread, ?_⟩
      simp [hanswers, push, note, Announcement.completeAtoms, Announcement.pieces]

theorem complete_of_readFrom (lines : List String) :
    ∀ {number : Nat} {out out' : SolverOutput}, readFrom number out lines = .ok out' →
      ∀ x ∈ announcedIn lines, x.Complete := by
  induction lines using List.twoStepInduction with
  | nil => exact fun _ => by simp [announcedIn]
  | singleton line =>
    intro number out out' h
    rw [readFrom] at h
    rw [announcedIn]
    cases hafter : Text.afterPrefix? "Answer:" (Text.trim line) with
    | none => simp [announcedIn]
    | some text =>
      simp only [hafter, List.forall_mem_singleton] at h ⊢
      obtain ⟨n, hn, -⟩ := bind_eq_ok.mp h
      exact ⟨by rw [Answer.readNumber_eq_ok.mp hn]; rfl, by simp [Announcement.pieces]⟩
  | cons_cons line atomLine rest ih ihRest =>
    intro number out out' h
    rw [readFrom] at h
    rw [announcedIn]
    cases hafter : Text.afterPrefix? "Answer:" (Text.trim line) with
    | none =>
      simp only [hafter] at h ⊢
      exact ihRest atomLine h
    | some text =>
      simp only [hafter, List.forall_mem_cons] at h ⊢
      obtain ⟨n, hn, h⟩ := bind_eq_ok.mp h
      obtain ⟨atoms, hatoms, h⟩ := bind_eq_ok.mp h
      exact ⟨⟨by rw [Answer.readNumber_eq_ok.mp hn]; rfl, (Answer.readAtoms_eq_ok.mp hatoms).1⟩,
        ih h⟩

/-- An output is read just if no answer has been cut off. -/
theorem exists_parse_iff {text : String} : (∃ out, parse text = .ok out) ↔ Complete text := by
  constructor
  · rintro ⟨out, h⟩
    exact complete_of_readFrom _ h
  · intro h
    obtain ⟨out, hread, -⟩ := readFrom_of_complete _ _ _ h
    exact ⟨out, hread⟩

theorem answers_of_parse {text : String} {out : SolverOutput} (h : parse text = .ok out) :
    out.answers.map Answer.atoms = (announced text).map Announcement.completeAtoms := by
  obtain ⟨out', hread, hanswers⟩ :=
    readFrom_of_complete _ 1 ⟨.unknown, [], false⟩ (exists_parse_iff.mp ⟨out, h⟩)
  obtain rfl : out = out' := Except.ok.inj (h.symm.trans hread)
  simpa [announced] using hanswers

end SolverOutput

/-! ### Undo pairs -/

/-- The undo pairs among the complete atoms of the answer that has been announced last. -/
def UndoPair.printed (text : String) : List UndoPair :=
  match (SolverOutput.announced text).getLast? with
  | some x => UndoPair.ofAnswer { number := 0, atoms := x.completeAtoms }
  | none => []

/-- An atom that has been cut off stands for no pair: what counts are the atoms before it. -/
theorem UndoPair.ofAnswer_of_cut {x : Announcement} {pieces : List String} {cut rest : List Char}
    {a : Atom} (hpieces : x.pieces = pieces ++ [String.ofList cut])
    (hatom : Atom.Derives (cut ++ rest) a) (hrest : rest ≠ []) :
    ofAnswer { number := 0, atoms := x.completeAtoms } =
      ofAnswer { number := 0, atoms := pieces.filterMap Atom.parse? } := by
  rw [Announcement.completeAtoms, hpieces, List.filterMap_append]
  cases hcut : Atom.parse? (String.ofList cut) with
  | none => simp [hcut]
  | some b =>
    have hargs := Atom.parse?_cut hatom hrest hcut
    simp [hcut, ofAnswer, Answer.atomsOf, Atom.is, hargs]

theorem UndoPair.ofOutput_of_parse {text : String} {out : SolverOutput}
    (h : SolverOutput.parse text = .ok out) : UndoPair.ofOutput out = UndoPair.printed text := by
  have hlast := congrArg List.getLast? (SolverOutput.answers_of_parse h)
  rw [List.getLast?_map, List.getLast?_map] at hlast
  rw [UndoPair.ofOutput, UndoPair.printed, SolverOutput.lastAnswer?]
  cases hanswer : out.answers.getLast? with
  | none =>
    cases hannounced : (SolverOutput.announced text).getLast? with
    | none => rfl
    | some x => simp [hanswer, hannounced] at hlast
  | some answer =>
    cases hannounced : (SolverOutput.announced text).getLast? with
    | none => simp [hanswer, hannounced] at hlast
    | some x =>
      have hatoms : answer.atoms = x.completeAtoms := by simpa [hanswer, hannounced] using hlast
      change ofAnswer answer = ofAnswer { number := 0, atoms := x.completeAtoms }
      rw [← hatoms]
      rfl

end StrongCyclic
