import StrongCyclic.Proofs.Answer.Quoting
import StrongCyclic.Proofs.Answer.Terms
import StrongCyclic.Proofs.Answer.Words
import StrongCyclic.Proofs.Text.Search

/-!
Reading the output of a solver undoes printing it. The written form of a readable atom derives it and
has no quotes inside of its strings, so a line of atoms falls into their written forms, each of which is
read back. The lines in front of the answers change nothing (`IsSilent`), the two lines of an answer add
it, and the last line gives the status.
-/

namespace StrongCyclic

namespace Term

theorem not_mem_quotedList {args : List Term} {c : Char} (h : ∀ t ∈ args, c ∉ t.quoted) :
    c ∉ quotedList args := by
  induction args with
  | nil => simp [quotedList]
  | cons t ts ih =>
    obtain ⟨ht, hts⟩ := List.forall_mem_cons.mp h
    rw [quotedList, List.mem_append]
    exact not_or.mpr ⟨ht, ih hts⟩

/-- There is no quote in the strings of a readable term. -/
theorem Readable.not_mem_quoted {t : Term} (h : Readable t) : '"' ∉ t.quoted := by
  induction h with
  | int => simp [quoted]
  | str htext => exact fun hquote => (htext _ hquote).1 rfl
  | sym => simp [quoted]
  | @func name args hname hargs ih => exact not_mem_quotedList ih

theorem not_mem_textList {args : List Term} {c : Char} (hc : c ≠ ',')
    (h : ∀ t ∈ args, c ∉ t.text.toList) : c ∉ (textList args).toList := by
  induction args with
  | nil => simp [textList]
  | cons t ts ih =>
    obtain ⟨ht, hts⟩ := List.forall_mem_cons.mp h
    by_cases hnil : ts = []
    · rw [hnil, textList]
      exact ht
    · rw [toList_textList_cons hnil, List.mem_append, List.mem_cons]
      exact not_or.mpr ⟨ht, not_or.mpr ⟨hc, ih hts⟩⟩

theorem IsName.plain {name : String} (h : IsName name) : Text.Plain name :=
  Text.plain_of_not_isBlank fun c hc => isBlank_of_continuesName (h.continues c hc)

/-- The written form of a readable term stands on one line. -/
theorem Readable.not_mem_feed {t : Term} (h : Readable t) : '\n' ∉ t.text.toList := by
  induction h with
  | int =>
    intro hfeed
    exact absurd (Text.mem_toString_int hfeed) (by decide)
  | str htext =>
    simp only [Term.text, String.toList_append, List.mem_append, not_or]
    exact ⟨⟨by decide, fun hfeed => (htext _ hfeed).2.2 rfl⟩, by decide⟩
  | sym hname => exact hname.plain.2
  | @func name args hname hargs ih =>
    have hname : '\n' ∉ name.toList := by
      rcases hname with rfl | hname
      · simp
      · exact hname.plain.2
    simp only [Term.text, String.toList_append, List.mem_append, not_or]
    exact ⟨⟨⟨hname, by decide⟩, not_mem_textList (by decide) ih⟩, by decide⟩

end Term

/-! ### Lines of atoms -/

/-- The atom comes back when its written form is read. -/
structure Atom.Readable (a : Atom) : Prop where
  name : Term.IsName a.predicate
  args : ∀ t ∈ a.args, t.Readable

namespace Atom

variable {a : Atom}

theorem text_of_args_ne_nil (h : a.args ≠ []) :
    a.text.toList = a.predicate.toList ++ '(' :: ((Term.textList a.args).toList ++ [')']) := by
  have hargs : a.args.isEmpty = false := by simpa using h
  simp [text, hargs]

/-- The written form of a readable atom derives it. -/
theorem Readable.derives (h : a.Readable) : Derives a.text.toList a := by
  obtain ⟨name, args⟩ := a
  by_cases hargs : args = []
  · subst hargs
    exact .constant h.name
  · rw [text_of_args_ne_nil hargs]
    exact .applied h.name (Term.derivesArgs_textList fun t ht => (h.args t ht).derives)

theorem Readable.not_mem_quoted (h : a.Readable) : '"' ∉ a.quoted :=
  Term.not_mem_quotedList fun t ht => (h.args t ht).not_mem_quoted

/-- There are no blanks around an atom. -/
theorem Readable.plain (h : a.Readable) : Text.Plain a.text := by
  unfold Atom.text
  split
  · exact h.name.plain
  · have hbody : '\n' ∉ ("(" ++ Term.textList a.args).toList := by
      rw [String.toList_append, List.mem_append]
      exact not_or.mpr ⟨by decide,
        Term.not_mem_textList (by decide) fun t ht => (h.args t ht).not_mem_feed⟩
    have hclose : Text.Plain ")" := by decide
    have hplain := h.name.plain.append_append hclose h.name.ne_empty (by decide) hbody
    rwa [← String.append_assoc] at hplain

theorem Readable.text_ne_empty (h : a.Readable) : a.text ≠ "" := by
  obtain ⟨c, cs, hcs, -⟩ := h.derives.exists_cons
  intro hempty
  rw [hempty] at hcs
  cases hcs

theorem Readable.parse?_text (h : a.Readable) : parse? a.text = some a := by
  have htrim : Text.trimChars a.text.toList = a.text.toList := by
    rw [← String.toList_ofList (l := Text.trimChars _)]
    exact congrArg String.toList h.plain.1
  rw [parse?_eq_some_iff, htrim]
  exact h.derives

end Atom

namespace Answer

/-- A line of atoms falls into their written forms. -/
theorem splitAtoms_intercalate {atoms : List Atom} (h : ∀ a ∈ atoms, a.Readable) :
    splitAtoms (" ".intercalate (atoms.map Atom.text)) = atoms.map Atom.text := by
  have hderives : List.Forall₂ (fun t a => Atom.Derives t.toList a) (atoms.map Atom.text) atoms := by
    rw [List.forall₂_map_left_iff, List.forall₂_same]
    exact fun a ha => (h a ha).derives
  exact splitAtoms_of_not_mem hderives fun a ha => (h a ha).not_mem_quoted

theorem readAtoms_intercalate {atoms : List Atom} (h : ∀ a ∈ atoms, a.Readable) (number : Nat) :
    readAtoms number (" ".intercalate (atoms.map Atom.text)) = .ok atoms := by
  rw [readAtoms, splitAtoms_intercalate h, Fallible.mapM_eq_ok, List.forall₂_map_left_iff,
    List.forall₂_same]
  intro a ha
  rw [(h a ha).parse?_text]

/-! ### Printed answers -/

/-- The answer comes back when its two lines are read. -/
structure Readable (a : Answer) : Prop where
  number_lt : a.number < Text.wordLimit
  atoms : ∀ atom ∈ a.atoms, atom.Readable

/-- The line that announces an answer. -/
def header (a : Answer) : String :=
  "Answer: " ++ toString a.number

/-- The lines of an answer. -/
def printed (a : Answer) : List String :=
  [a.header, " ".intercalate (a.atoms.map Atom.text)]

variable {a : Answer}

theorem header_eq (a : Answer) : a.header = "Answer:" ++ " " ++ toString a.number := by
  have hmark : "Answer: " = "Answer:" ++ " " := by decide
  rw [header, hmark]

theorem plain_header (a : Answer) : Text.Plain a.header := by
  have hword : Text.Plain "Answer:" := by decide
  have hfeed : '\n' ∉ " ".toList := by decide
  have hne : toString a.number ≠ "" := by
    obtain ⟨c, cs, hcs, -⟩ := Text.exists_cons_toString a.number
    intro hempty
    rw [hempty] at hcs
    cases hcs
  rw [header_eq]
  exact hword.append_append (Text.plain_toString a.number) (by decide) hne hfeed

/-- The lines of an answer are read as they are printed. -/
theorem Readable.plain_printed (h : a.Readable) : ∀ line ∈ a.printed, Text.Plain line := by
  rw [printed, List.forall_mem_cons, List.forall_mem_singleton]
  refine ⟨a.plain_header, (Text.plain_intercalate_of_ne_empty (by decide) ?_).1⟩
  rw [List.forall_mem_map]
  exact fun atom hatom => ⟨(h.atoms atom hatom).plain, (h.atoms atom hatom).text_ne_empty⟩

theorem afterPrefix?_header (a : Answer) :
    Text.afterPrefix? "Answer:" a.header = some (" " ++ toString a.number) := by
  rw [header_eq, String.append_assoc, Text.afterPrefix?_append]

theorem Readable.readNumber (h : a.Readable) (number : Nat) :
    readNumber number (" " ++ toString a.number) = .ok a.number := by
  rw [Answer.readNumber, (Text.plain_toString a.number).trim_blank_append,
    Text.natural?_toString h.number_lt]

theorem contains_header {mark : String} {c : Char} (hc : c ∈ mark.toList)
    (hdigit : c.isDigit = false) (hletter : c ∉ "Answer: ".toList) :
    Text.contains mark a.header = false := by
  refine Text.contains_eq_false hc ?_
  rw [header, String.toList_append, List.mem_append]
  refine not_or.mpr ⟨hletter, fun hmem => ?_⟩
  exact absurd (Text.isDigit_of_mem_toString hmem) (by simp [hdigit])

end Answer

namespace SolverOutput

open Text (contains)

/-! ### Printed output -/

/-- The marks that a line in front of the answers does not have. -/
def marks : List String :=
  ["SATISFIABLE", "OPTIMUM FOUND", timedOutMark]

/-- A line that may stand in front of the answers: it states no status, it has no time-out mark and
it announces no answer, also if it is indented. -/
structure Precedes (line : String) : Prop where
  oneLine : '\n' ∉ line.toList
  unmarked : ∀ mark ∈ marks, ¬ mark.toList <:+: line.toList
  noHeader : ¬ "Answer:".toList <+: (Text.trim line).toList

theorem unmarked_iff {line : String} : (∀ mark ∈ marks, ¬ mark.toList <:+: line.toList) ↔
    ∀ mark ∈ marks, contains mark line = false :=
  forall₂_congr fun _ _ => by rw [← Text.contains_iff, Bool.not_eq_true]

theorem precedes_iff {line : String} : Precedes line ↔ '\n' ∉ line.toList ∧
    (∀ mark ∈ marks, contains mark line = false) ∧
      Text.afterPrefix? "Answer:" (Text.trim line) = none := by
  rw [← unmarked_iff, Text.afterPrefix?_eq_none_iff]
  exact ⟨fun h => ⟨h.oneLine, h.unmarked, h.noHeader⟩, fun ⟨hfeed, hmarks, hheader⟩ =>
    ⟨hfeed, hmarks, hheader⟩⟩

instance (line : String) : Decidable (Precedes line) :=
  decidable_of_iff _ precedes_iff.symm

/-- The last lines, with the status that each of them states. -/
inductive Concludes : String → SolverStatus → Prop
  | satisfiable : Concludes "SATISFIABLE" .satisfiable
  | optimal : Concludes "OPTIMUM FOUND" .satisfiable
  | unsatisfiable : Concludes "UNSATISFIABLE" .unsatisfiable
  | unknown : Concludes "UNKNOWN" .unknown

/-- Some lines, the answers and a last line, which may be ended or not. -/
def printed (preamble : List String) (answers : List Answer) (last ending : String) : String :=
  Text.unlines (preamble ++ answers.flatMap Answer.printed) ++ (last ++ ending)

variable {answers : List Answer} {line : String}

/-- The line changes nothing in what has been read. -/
structure IsSilent (line : String) : Prop where
  noHeader : Text.afterPrefix? "Answer:" (Text.trim line) = none
  status : statusOf (Text.trim line) = .unknown
  timedOut : contains timedOutMark (Text.trim line) = false

theorem note_eq {status : SolverStatus} (hstatus : statusOf line = status)
    (htimedOut : contains timedOutMark line = false) :
    note ⟨.unknown, answers, false⟩ line = ⟨status, answers, false⟩ := by
  simp [note, hstatus, htimedOut]

theorem readFrom_silent {lines : List String} (h : ∀ line ∈ lines, IsSilent line) (number : Nat)
    (rest : List String) :
    readFrom number ⟨.unknown, answers, false⟩ (lines ++ rest) =
      readFrom (number + lines.length) ⟨.unknown, answers, false⟩ rest := by
  induction lines generalizing number with
  | nil => rfl
  | cons line lines ih =>
    obtain ⟨hline, hlines⟩ := List.forall_mem_cons.mp h
    rw [List.cons_append, readFrom]
    simp only [hline.noHeader]
    rw [note_eq hline.status hline.timedOut, ih hlines, List.length_cons]
    congr 1
    omega

theorem statusOf_eq_unknown (hsatisfiable : contains "SATISFIABLE" line = false)
    (hoptimal : contains "OPTIMUM FOUND" line = false) : statusOf line = .unknown := by
  have hunsatisfiable : contains "UNSATISFIABLE" line = false := by
    refine Bool.eq_false_iff.mpr fun hcontains => ?_
    have hwithin : "SATISFIABLE".toList <:+: "UNSATISFIABLE".toList := ⟨['U', 'N'], [], rfl⟩
    have hmark := Text.contains_iff.mpr (hwithin.trans (Text.contains_iff.mp hcontains))
    exact absurd hmark (by simp [hsatisfiable])
  rw [statusOf, hunsatisfiable, hsatisfiable, hoptimal]
  rfl

/-- A line in front of the answers is silent, also when it has been read with its carriage return
dropped. -/
theorem Precedes.isSilent (h : Precedes line) :
    IsSilent (String.ofList (Text.dropReturn line.toList)) := by
  have htrim : Text.trim (String.ofList (Text.dropReturn line.toList)) = Text.trim line := by
    rw [Text.trim, String.toList_ofList, Text.trimChars_dropReturn, ← Text.trim]
  have hwithin : (Text.trim line).toList <:+: line.toList := by
    rw [Text.trim, String.toList_ofList]
    exact Text.trimChars_within _
  have hmark : ∀ mark ∈ marks, contains mark (Text.trim line) = false := fun mark hmark =>
    Bool.eq_false_iff.mpr fun hcontains =>
      h.unmarked mark hmark ((Text.contains_iff.mp hcontains).trans hwithin)
  constructor
  · rw [htrim]
    exact Text.afterPrefix?_eq_none_iff.mpr h.noHeader
  · rw [htrim]
    exact statusOf_eq_unknown (hmark _ (by simp [marks])) (hmark _ (by simp [marks]))
  · rw [htrim]
    exact hmark _ (by simp [marks])

theorem note_header (a : Answer) :
    note ⟨.unknown, answers, false⟩ a.header = ⟨.unknown, answers, false⟩ := by
  refine note_eq (statusOf_eq_unknown ?_ ?_) ?_
  · exact Answer.contains_header (c := 'S') (by decide) (by decide) (by decide)
  · exact Answer.contains_header (c := 'O') (by decide) (by decide) (by decide)
  · exact Answer.contains_header (c := 'T') (by decide) (by decide) (by decide)

/-- The two lines of an answer add it, whatever its atoms say. -/
theorem readFrom_printed {a : Answer} (h : a.Readable) (number : Nat) (rest : List String) :
    readFrom number ⟨.unknown, answers, false⟩ (a.printed ++ rest) =
      readFrom (number + 2) ⟨.unknown, answers ++ [a], false⟩ rest := by
  rw [Answer.printed, List.cons_append, List.singleton_append, readFrom]
  simp only [a.plain_header.1, a.afterPrefix?_header, h.readNumber, Fallible.ok_bind,
    Answer.readAtoms_intercalate h.atoms, note_header]
  rfl

theorem readFrom_answers {more : List Answer} (h : ∀ a ∈ more, a.Readable) (number : Nat)
    (rest : List String) :
    readFrom number ⟨.unknown, answers, false⟩ (more.flatMap Answer.printed ++ rest) =
      readFrom (number + 2 * more.length) ⟨.unknown, answers ++ more, false⟩ rest := by
  induction more generalizing number answers with
  | nil => simp
  | cons a more ih =>
    obtain ⟨ha, hmore⟩ := List.forall_mem_cons.mp h
    rw [List.flatMap_cons, List.append_assoc, readFrom_printed ha, ih hmore, List.length_cons,
      List.append_assoc, List.singleton_append]
    congr 1
    omega

theorem Concludes.note {last : String} {status : SolverStatus} (h : Concludes last status) :
    Text.trim last = last ∧ Text.afterPrefix? "Answer:" last = none ∧ statusOf last = status ∧
      contains timedOutMark last = false := by
  cases h <;> decide

theorem readFrom_last {last : String} {status : SolverStatus} (h : Concludes last status)
    (number : Nat) : readFrom number ⟨.unknown, answers, false⟩ [last] =
      .ok ⟨status, answers, false⟩ := by
  obtain ⟨htrim, hheader, hstatus, htimedOut⟩ := h.note
  rw [readFrom]
  simp only [htrim, hheader, note_eq hstatus htimedOut]
  rfl

theorem lines_last {last ending : String} {status : SolverStatus} (h : Concludes last status)
    (hending : ending = "" ∨ ending = "\n") : Text.lines (last ++ ending) = [last] := by
  rcases hending with rfl | rfl <;> cases h <;> decide

/-- Reading the output of a solver undoes printing it. -/
theorem parse_printed {preamble : List String} (hpreamble : ∀ line ∈ preamble, Precedes line)
    (hanswers : ∀ a ∈ answers, a.Readable) {last : String} {status : SolverStatus}
    (hlast : Concludes last status) {ending : String} (hending : ending = "" ∨ ending = "\n") :
    parse (printed preamble answers last ending) = .ok ⟨status, answers, false⟩ := by
  have hplain : ∀ line ∈ answers.flatMap Answer.printed, Text.Plain line := by
    intro line hline
    obtain ⟨a, ha, hline⟩ := List.mem_flatMap.mp hline
    exact (hanswers a ha).plain_printed line hline
  have hlines : Text.lines (printed preamble answers last ending) =
      (preamble.map fun line => String.ofList (Text.dropReturn line.toList)) ++
        (answers.flatMap Answer.printed ++ [last]) := by
    rw [printed, Text.unlines_append, String.append_assoc,
      Text.lines_unlines_append_dropReturn fun line hline => (hpreamble line hline).oneLine,
      Text.lines_unlines_append hplain, lines_last hlast hending]
  have hsilent : ∀ line ∈ preamble.map fun line => String.ofList (Text.dropReturn line.toList),
      IsSilent line := by
    rw [List.forall_mem_map]
    exact fun line hline => (hpreamble line hline).isSilent
  rw [parse, hlines, readFrom_silent hsilent, readFrom_answers hanswers, readFrom_last hlast,
    List.nil_append]

/-- An answer whose only atom has a text in it that looks like a status and like a time-out mark. -/
def quotingAnswer : Answer :=
  ⟨1, [⟨"policy", [.func "" [.int (-1), .sym "s'"], .str "SATISFIABLE Timed out with time limit="]⟩]⟩

theorem readable_quotingAnswer : quotingAnswer.Readable := by
  have hname : Term.IsName "policy" :=
    ⟨'p', "olicy".toList, by decide, by decide, List.all_eq_true.mp (by decide)⟩
  have hsym : Term.IsName "s'" :=
    ⟨'s', ['\''], by decide, by decide, List.all_eq_true.mp (by decide)⟩
  have htuple : (Term.func "" [.int (-1), .sym "s'"]).Readable := by
    refine .func (.inl rfl) ?_
    rw [List.forall_mem_cons, List.forall_mem_singleton]
    exact ⟨.int (by decide) (by decide), .sym hsym⟩
  refine ⟨by decide, ?_⟩
  rw [quotingAnswer, List.forall_mem_singleton]
  refine ⟨hname, ?_⟩
  rw [List.forall_mem_cons, List.forall_mem_singleton]
  exact ⟨htuple, .str (by simp)⟩

theorem parse_printed_quotingAnswer :
    (∀ line ∈ ["clingo version 5.6.2", "Solving..."], Precedes line) ∧ quotingAnswer.Readable ∧
      parse (printed ["clingo version 5.6.2", "Solving..."] [quotingAnswer] "UNSATISFIABLE" "\n") =
        .ok ⟨.unsatisfiable, [quotingAnswer], false⟩ := by
  have hpreamble : ∀ line ∈ ["clingo version 5.6.2", "Solving..."], Precedes line := by
    decide +kernel
  exact ⟨hpreamble, readable_quotingAnswer, parse_printed hpreamble
    (by rw [List.forall_mem_singleton]; exact readable_quotingAnswer) .unsatisfiable (.inr rfl)⟩

/-- A header that is indented still announces an answer, and the line after it is read as its atoms.
So it is not enough that no line of the preamble starts with `Answer:`. -/
theorem parse_indentedHeader : parse (printed [" Answer: 1"] [] "UNSATISFIABLE" "") =
    .ok ⟨.unknown, [⟨1, [⟨"UNSATISFIABLE", []⟩]⟩], false⟩ := by
  decide +kernel

theorem not_forall_parse_printed :
    ¬ ∀ (preamble : List String) (answers : List Answer) (last ending : String)
        (status : SolverStatus),
      (∀ line ∈ preamble, '\n' ∉ line.toList ∧ (∀ mark ∈ marks, ¬ mark.toList <:+: line.toList) ∧
        ¬ "Answer:".toList <+: line.toList) →
      (∀ a ∈ answers, a.Readable) → Concludes last status → (ending = "" ∨ ending = "\n") →
        parse (printed preamble answers last ending) = .ok ⟨status, answers, false⟩ := by
  intro hall
  have hmarks : ∀ mark ∈ marks, ¬ mark.toList <:+: " Answer: 1".toList :=
    unmarked_iff.mpr (by decide +kernel)
  have hparse := hall [" Answer: 1"] [] "UNSATISFIABLE" "" .unsatisfiable
    (by rw [List.forall_mem_singleton]; exact ⟨by decide, hmarks, by decide⟩) (by simp)
    .unsatisfiable (.inl rfl)
  rw [parse_indentedHeader] at hparse
  cases hparse

end SolverOutput

end StrongCyclic
