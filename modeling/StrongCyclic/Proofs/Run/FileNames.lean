import StrongCyclic.Proofs.Disk.Path
import StrongCyclic.Proofs.Text.Numeral
import StrongCyclic.Proofs.Text.Search
import StrongCyclic.Run.FileNames

/-!
Names of attempts. The name of an attempt gives back its size, if the size is a 64-bit word, and
every name that gives a size is the name of an entry. A name that ends like a program gives none.
-/

namespace StrongCyclic.FileNames

theorem attemptSize?_attempt (text : String) :
    attemptSize? ("clingo_out_" ++ text ++ ".out") = Text.natural? text := by
  rw [attemptSize?, String.append_assoc, Text.afterPrefix?_append, Option.bind_some,
    Text.beforeSuffix?_append, Option.bind_some]

theorem attemptSize?_attemptOutput {n : Nat} (h : n < Text.wordLimit) :
    attemptSize? (attemptOutput n) = some n := by
  rw [attemptOutput, attemptSize?_attempt, Text.natural?_toString h]

theorem eq_of_attemptSize?_attemptOutput {n size : Nat}
    (h : attemptSize? (attemptOutput n) = some size) : size = n := by
  rw [attemptOutput, attemptSize?_attempt, Text.natural?_toString_eq,
    Text.below?_eq_some_iff] at h
  exact (Option.some.inj h.1).symm

theorem attemptOutput_injective {m n : Nat} (h : attemptOutput m = attemptOutput n) : m = n := by
  simp only [attemptOutput, String.append_left_inj, String.append_right_inj] at h
  exact Text.toString_injective h

theorem exists_of_attemptSize? {name : String} {n : Nat} (h : attemptSize? name = some n) :
    ∃ text, name = "clingo_out_" ++ text ++ ".out" ∧ Text.natural? text = some n := by
  obtain ⟨middle, hmiddle, hnumeral⟩ := Option.bind_eq_some_iff.mp h
  obtain ⟨rest, hrest, hmiddle⟩ := Option.bind_eq_some_iff.mp hmiddle
  rw [Text.eq_append_of_afterPrefix? hrest, Text.eq_append_of_beforeSuffix? hmiddle,
    ← String.append_assoc]
  exact ⟨middle, rfl, hnumeral⟩

theorem lt_of_attemptSize? {name : String} {n : Nat} (h : attemptSize? name = some n) :
    n < Text.wordLimit := by
  obtain ⟨text, -, hnumeral⟩ := exists_of_attemptSize? h
  exact Text.lt_of_natural? hnumeral

theorem isEntryName_attempt {text : String} (h : '/' ∉ text.toList) :
    IsEntryName ("clingo_out_" ++ text ++ ".out") := by
  refine ⟨fun heq => ?_, fun heq => ?_, fun heq => ?_, by simpa using h⟩
  all_goals simpa using congrArg (·.toList.head?) heq

theorem isEntryName_attemptOutput (n : Nat) : IsEntryName (attemptOutput n) :=
  isEntryName_attempt fun hslash => absurd (Text.isDigit_of_mem_toString hslash) (by decide)

theorem toNat_ne_zero_of_mem_attemptOutput {n : Nat} {c : Char}
    (h : c ∈ (attemptOutput n).toList) : c.toNat ≠ 0 := by
  have hends : ∀ c ∈ "clingo_out_".toList ++ ".out".toList, c.toNat ≠ 0 := by simp
  simp only [attemptOutput, String.toList_append, List.mem_append] at h hends
  obtain (h | h) | h := h
  · exact hends c (.inl h)
  · have hdigit := Text.toNat_of_isDigit (Text.isDigit_of_mem_toString h)
    omega
  · exact hends c (.inr h)

theorem isEntryName_of_attemptSize? {name : String} {n : Nat} (h : attemptSize? name = some n) :
    IsEntryName name := by
  obtain ⟨text, rfl, hnumeral⟩ := exists_of_attemptSize? h
  obtain ⟨digits, htext, hdigits, -⟩ := Text.naturalOf?_eq_some hnumeral
  have hslash : '/' ∉ digits := fun hmem =>
    absurd (Text.isDigit_of_digitsValue? hdigits _ hmem) (by decide)
  refine isEntryName_attempt ?_
  rcases htext with htext | htext <;> simp [htext, hslash]

theorem task_ne_attemptOutput (n : Nat) : task ≠ attemptOutput n := by
  intro heq
  simpa [task, attemptOutput] using congrArg (·.toList.head?) heq

/-! ### Names of programs -/

theorem append_lp_ne {s t : String} (h : t.toList.getLast? ≠ some 'p') : s ++ ".lp" ≠ t := by
  rintro rfl
  exact h (by simp)

/-- The name of a program is not the name of an attempt. -/
theorem attemptSize?_append_lp (s : String) : attemptSize? (s ++ ".lp") = none := by
  rw [Option.eq_none_iff_forall_ne_some]
  intro n h
  obtain ⟨text, heq, -⟩ := exists_of_attemptSize? h
  refine append_lp_ne ?_ heq
  rw [String.toList_append, List.getLast?_append_of_ne_nil _ (by simp)]
  decide

end StrongCyclic.FileNames
