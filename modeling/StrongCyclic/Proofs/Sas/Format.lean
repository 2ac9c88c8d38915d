import StrongCyclic.Proofs.Sas.Readers
import StrongCyclic.Proofs.Text.Plain

/-!
A text is read as a task exactly when it is a task file, and then the task is the one that its
blocks describe; every other text is a fault of one of its lines. There is one exception: where a line
announces more entries than a list can have, the program ends in the middle of the reading.
-/

namespace StrongCyclic

theorem Text.words_ne_nil {s : String} {c : Char} (hhead : c ∈ s.toList.head?)
    (hc : isBlank c = false) : words s ≠ [] := by
  obtain ⟨cs, hcs⟩ := List.head?_eq_some_iff.mp hhead
  obtain ⟨piece, pieces, hsplit⟩ := List.exists_cons_of_ne_nil (splitWhere_ne_nil isBlank cs)
  simp [words, wordChars, hcs, splitWhere, hc, hsplit]

namespace Sas

open Fallible (bind_eq_ok then_eq_ok pure_eq_ok)

/-- Every line of a file can be the header of an operator. -/
theorem exists_header_of_mem_fileLines {text : String} {l : Line} (h : l ∈ fileLines text) :
    ∃ header, Header.parse? l.text = some header := by
  obtain ⟨hmem, hnonempty⟩ := List.mem_filter.mp h
  obtain ⟨i, hi, rfl⟩ := List.mem_mapIdx.mp hmem
  have hne : (Text.trim (Text.lines text)[i]).toList ≠ [] := by
    simpa using hnonempty
  obtain ⟨c, cs, hcs⟩ := List.exists_cons_of_ne_nil hne
  have hc : Text.isBlank c = false := Text.head?_trimChars (by
    rw [← String.toList_ofList (l := Text.trimChars _)]
    exact List.head?_eq_some_iff.mpr ⟨cs, hcs⟩)
  obtain ⟨name, arguments, hwords⟩ := List.exists_cons_of_ne_nil
    (Text.words_ne_nil (List.head?_eq_some_iff.mpr ⟨cs, hcs⟩) hc)
  exact ⟨_, by rw [Header.parse?, hwords]⟩

/-- Plain texts that are not empty, written as lines, are the lines of the file. -/
theorem fileLines_unlines {texts : List String} (h : ∀ text ∈ texts, Text.Plain text ∧ text ≠ "") :
    fileLines (Text.unlines texts) = texts.mapIdx fun i text => ⟨i + 1, text⟩ := by
  have hlines : Text.lines (Text.unlines texts) = texts := by
    have happend := Text.lines_unlines_append (fun text htext => (h text htext).1) ""
    rwa [String.append_empty, show Text.lines "" = [] from rfl, List.append_nil] at happend
  have htrim : texts.mapIdx (fun i line => Line.mk (i + 1) (Text.trim line)) =
      texts.mapIdx fun i text => ⟨i + 1, text⟩ := by
    refine List.mapIdx_eq_mapIdx_iff.mpr fun i hi => ?_
    rw [(h _ (List.getElem_mem hi)).1.1]
  rw [fileLines, hlines, htrim]
  refine List.filter_eq_self.mpr fun l hl => ?_
  obtain ⟨i, hi, rfl⟩ := List.mem_mapIdx.mp hl
  exact decide_eq_true (h _ (List.getElem_mem hi)).2

/-! ### Checks -/

variable {sizes : List Nat}

theorem checkValue_eq_ok_iff {line var value : Nat} :
    checkValue sizes line var value = .ok () ↔ HasValue sizes var value := by
  unfold checkValue HasValue
  cases sizes[var]? with
  | none => simp [Reader.fail]
  | some size => by_cases h : size ≤ value <;> simp [h, Reader.fail, Nat.lt_of_not_le]

theorem checkFacts_eq_ok_iff {facts : List Fact} :
    checkFacts sizes facts = .ok () ↔ ∀ fact ∈ facts, fact.Fits sizes := by
  induction facts with
  | nil => simp [checkFacts]
  | cons fact facts ih =>
    rw [checkFacts, then_eq_ok, checkValue_eq_ok_iff, ih, List.forall_mem_cons, Fact.Fits]

theorem checkValues_eq_ok_iff {line start : Nat} {values : List Nat}
    (hlength : start + values.length = sizes.length) :
    checkValues sizes line start values = .ok () ↔
      List.Forall₂ (· < ·) values (sizes.drop start) := by
  induction values generalizing start with
  | nil =>
    have hend : sizes.length ≤ start := Nat.le_of_eq hlength.symm
    simp [checkValues, List.drop_eq_nil_of_le hend]
  | cons value values ih =>
    rw [List.length_cons] at hlength
    have hstart : start < sizes.length := by omega
    have hvalue : HasValue sizes start value ↔ value < sizes[start] := by
      simp [HasValue, hstart]
    rw [checkValues, then_eq_ok, checkValue_eq_ok_iff, hvalue, ih (by omega),
      List.drop_eq_getElem_cons hstart, List.forall₂_cons]

theorem stateOfFacts_eq_ok_iff {facts : List Fact} {s : State} :
    stateOfFacts sizes facts = .ok s ↔
      (∀ fact ∈ facts, fact.Fits sizes) ∧ s = factState sizes facts := by
  rw [stateOfFacts, then_eq_ok, checkFacts_eq_ok_iff, pure_eq_ok, eq_comm]
  rfl

theorem checkedChange_eq_ok_iff {change : Change} {checked : ValueChange} :
    checkedChange sizes change = .ok checked ↔ change.Fits sizes ∧ checked = change.described := by
  rw [checkedChange, then_eq_ok, checkValue_eq_ok_iff, Change.Fits, and_assoc]
  refine and_congr_right fun _ => ?_
  by_cases hundefined : change.prev = -1
  · have hslot : slotOfInteger? change.prev = some none := if_pos hundefined
    rw [hslot, Change.described, Change.previous, if_pos hundefined, pure_eq_ok, eq_comm]
    exact (and_iff_right (.inl hundefined)).symm
  · by_cases hprev : 0 ≤ change.prev
    · have hslot : slotOfInteger? change.prev = some (some change.prev.toNat) := by
        rw [slotOfInteger?, if_neg hundefined, if_pos hprev]
      simp only [hslot, then_eq_ok, checkValue_eq_ok_iff, pure_eq_ok, Change.described,
        Change.previous, hundefined, hprev, if_false, false_or, true_and]
      rw [eq_comm]
    · have hslot : slotOfInteger? change.prev = none := by
        rw [slotOfInteger?, if_neg hundefined, if_neg hprev]
      simp [hslot, hundefined, hprev, Reader.fail]

theorem action_eq_ok_iff {op : Operator} {a : Action} :
    op.action sizes = .ok a ↔ op.Fits sizes ∧ a = op.described sizes := by
  simp only [Operator.action, bind_eq_ok, stateOfFacts_eq_ok_iff,
    Fallible.mapM_checked checkedChange_eq_ok_iff, pure_eq_ok]
  constructor
  · rintro ⟨_, ⟨hprevail, rfl⟩, _, ⟨hchanges, rfl⟩, rfl⟩
    exact ⟨⟨hprevail, hchanges⟩, rfl⟩
  · rintro ⟨⟨hprevail, hchanges⟩, rfl⟩
    exact ⟨_, ⟨hprevail, rfl⟩, _, ⟨hchanges, rfl⟩, rfl⟩

theorem initialOf_eq_ok_iff {line : Nat} {values : List Nat} {s : State} :
    initialOf sizes line values = .ok s ↔
      List.Forall₂ (· < ·) values sizes ∧ s = State.ofValues values := by
  unfold initialOf
  split
  · next hlength =>
    constructor
    · intro h
      cases h
    · exact fun h => absurd h.1.length_eq hlength
  · next hlength =>
    have hlength : 0 + values.length = sizes.length := by
      rw [Nat.zero_add]
      exact Decidable.not_not.mp hlength
    rw [then_eq_ok, checkValues_eq_ok_iff hlength, List.drop_zero, pure_eq_ok, eq_comm]

theorem taskOf_eq_ok_iff {last : Nat} {blocks : List Block} {t : Task} :
    taskOf last blocks = .ok t ↔ ∃ values, Fits blocks values ∧ t = described blocks values := by
  unfold taskOf
  dsimp only
  split
  · next hnone =>
    constructor
    · intro h
      cases h
    · rintro ⟨values, hfits, -⟩
      have hinitial := hfits.initial
      rw [hnone] at hinitial
      cases hinitial
  · next line values hsome =>
    have hvalues : (stateOf? blocks).map Prod.snd = some values := by rw [hsome]; rfl
    simp only [bind_eq_ok, initialOf_eq_ok_iff, stateOfFacts_eq_ok_iff,
      Fallible.mapM_checked stateOfFacts_eq_ok_iff, Fallible.mapM_checked action_eq_ok_iff,
      pure_eq_ok]
    constructor
    · rintro ⟨_, ⟨hinitial, rfl⟩, _, ⟨hgoal, rfl⟩, _, ⟨hmutexes, rfl⟩, _, ⟨hoperators, rfl⟩, rfl⟩
      exact ⟨values, ⟨hvalues, hinitial, hgoal, hmutexes, hoperators⟩, rfl⟩
    · rintro ⟨values', hfits, rfl⟩
      obtain rfl : values' = values := Option.some.inj (hfits.initial.symm.trans hvalues)
      exact ⟨_, ⟨hfits.values, rfl⟩, _, ⟨hfits.goal, rfl⟩, _, ⟨hfits.mutexes, rfl⟩, _,
        ⟨hfits.operators, rfl⟩, rfl⟩

variable {text : String} {t : Task}

theorem parse_eq_ok : parse text = .ok t ↔ ∃ blocks values, Splits (fileLines text) blocks ∧
    (∀ block ∈ blocks, block.Roomy) ∧ Fits blocks values ∧ t = described blocks values := by
  constructor
  · intro h
    obtain ⟨last, blocks, hsplits, hroom, htask⟩ := exists_blocks_of_parse h
    obtain ⟨values, hfits, ht⟩ := taskOf_eq_ok_iff.mp htask
    exact ⟨blocks, values, hsplits, hroom, hfits, ht⟩
  · rintro ⟨blocks, values, hsplits, hroom, hfits, ht⟩
    obtain ⟨c, hblocks⟩ :=
      Reader.blocksWithin_of_splits (c := ⟨0, fileLines text⟩) hsplits hroom rfl (Nat.le_refl _)
    exact bind_eq_ok.mpr ⟨(blocks, c), hblocks,
      lift_eq_ok.mpr (taskOf_eq_ok_iff.mpr ⟨values, hfits, ht⟩)⟩

theorem parse_eq_crash_iff {cause : Crash} :
    parse text = .error (.crash cause) ↔ Overruns (fileLines text) ∧ cause = .capacity := by
  rw [parse, bind_calm_eq_crash fun _ => calm_lift]
  constructor
  · exact Reader.overruns_of_blocksWithin
  · rintro ⟨hoverruns, rfl⟩
    exact Reader.blocksWithin_of_overruns hoverruns rfl (Nat.le_refl _)

theorem parse_eq_ok_iff :
    parse text = .ok t ↔ Describes text t ∧ ¬ Overruns (fileLines text) := by
  constructor
  · intro h
    obtain ⟨blocks, values, hsplits, -, hfits, ht⟩ := parse_eq_ok.mp h
    refine ⟨⟨blocks, values, hsplits, hfits, ht⟩, fun hoverruns => ?_⟩
    exact nomatch h.symm.trans (parse_eq_crash_iff.mpr ⟨hoverruns, rfl⟩)
  · rintro ⟨⟨blocks, values, hsplits, hfits, ht⟩, hno⟩
    exact parse_eq_ok.mpr ⟨blocks, values, hsplits, hsplits.roomy_of_not_overruns hno, hfits, ht⟩

/-- A task file is read if its lines are few enough to be listed themselves. -/
theorem Describes.parse_eq (h : Describes text t)
    (hfew : (fileLines text).length ≤ Word.capacity Reader.changeBytes) : parse text = .ok t := by
  obtain ⟨blocks, values, hsplits, hfits, ht⟩ := h
  exact parse_eq_ok.mpr ⟨blocks, values, hsplits, hsplits.roomy hfew, hfits, ht⟩

/-- A text is read as a task exactly when its lines are a task file and none of them announces too many
entries, and the task is the one that the file describes. Where a line announces too many entries, the
program ends, which no task file of fewer lines can bring about; all other texts are faulted in one of
their lines. Any line may stand where a header does. -/
theorem parse_reads_format (text : String) :
    (∀ t, parse text = .ok t ↔ Describes text t ∧ ¬ Overruns (fileLines text)) ∧
      (∀ cause, parse text = .error (.crash cause) ↔
        Overruns (fileLines text) ∧ cause = .capacity) ∧
      ((¬ ∃ t, Describes text t) → ¬ Overruns (fileLines text) →
        ∃ fault, parse text = .error (.fault fault)) ∧
      ((fileLines text).length ≤ Word.capacity Reader.changeBytes →
        ∀ t, Describes text t → ¬ Overruns (fileLines text)) ∧
      ∀ l ∈ fileLines text, ∃ header, Header.parse? l.text = some header := by
  refine ⟨fun t => parse_eq_ok_iff, fun cause => parse_eq_crash_iff, fun hnone hno => ?_,
    fun hfew t ht => (parse_eq_ok_iff.mp (ht.parse_eq hfew)).2,
    fun l => exists_header_of_mem_fileLines⟩
  cases hparse : parse text with
  | ok t => exact absurd ⟨t, (parse_eq_ok_iff.mp hparse).1⟩ hnone
  | error stop =>
    cases stop with
    | fault fault => exact ⟨fault, rfl⟩
    | crash cause => exact absurd (parse_eq_crash_iff.mp hparse).1 hno

/-- A goal block that announces more facts than there are words with a sign. -/
def hugeGoalFile : String :=
  "begin_goal\n9223372036854775807\n"

theorem parse_hugeGoalFile : parse hugeGoalFile = .error (.crash .capacity) := by
  decide +kernel

/-- A text that is no task file need not be faulted. -/
theorem not_forall_faulted :
    ¬ ∀ text : String, (¬ ∃ t, Describes text t) → ∃ fault, parse text = .error (.fault fault) := by
  intro hall
  have hfew : (fileLines hugeGoalFile).length ≤ Word.capacity Reader.changeBytes := by
    decide +kernel
  obtain ⟨fault, hfault⟩ := hall hugeGoalFile fun ⟨t, ht⟩ =>
    nomatch (ht.parse_eq hfew).symm.trans parse_hugeGoalFile
  exact nomatch hfault.symm.trans parse_hugeGoalFile

end Sas

end StrongCyclic
