import StrongCyclic.Proofs.Disk.Frame
import StrongCyclic.Proofs.Synthesis.Checked

/-!
The files that a run writes into its directory, by what they are for. Each has a name of its own; the
controller program alone keeps the name that it has. If that is no name of another file of a run, no two
of the files have the same name.
-/

namespace StrongCyclic

open FileTree Place

/-- A file that a run writes into its directory. -/
inductive Artefact
  | task
  | controllerInstance
  | weakInstance
  | weakPlanOutput
  | backbone
  | unsolvable
  /-- The controller program, under its own name. -/
  | program
  | undoOutput
  | undoConstraints
  /-- A program that comes from outside, with its number. -/
  | constraint (index : Nat) (name : String)
  /-- The output of the attempt at a size. -/
  | output (size : Nat)
  | controllerText
  | controllerGraph
  | verification
deriving DecidableEq

namespace Artefact

/-- The name of the file, the controller program being called `program`. -/
def name (program : String) : Artefact → String
  | task => FileNames.task
  | controllerInstance => FileNames.controllerInstance
  | weakInstance => FileNames.weakInstance
  | weakPlanOutput => FileNames.weakPlanOutput
  | backbone => FileNames.backbone
  | unsolvable => FileNames.unsolvable
  | .program => program
  | undoOutput => FileNames.undoOutput
  | undoConstraints => FileNames.undoConstraints ++ ".lp"
  | constraint index name => (ConstraintFile.numbered ⟨name, ""⟩ index).name ++ ".lp"
  | output size => FileNames.attemptOutput size
  | controllerText => FileNames.controllerText
  | controllerGraph => FileNames.controllerGraph
  | verification => FileNames.verification

/-- The files whose names are the same in every run. -/
def fixed : List Artefact :=
  [task, controllerInstance, weakInstance, weakPlanOutput, backbone, unsolvable, undoOutput,
    undoConstraints, controllerText, controllerGraph, verification]

theorem kinds (a : Artefact) :
    a ∈ fixed ∨ a = .program ∨ (∃ index name, a = .constraint index name) ∨
      ∃ size, a = .output size := by
  cases a <;> simp [fixed]

variable {program : String} {a b : Artefact}

theorem name_of_mem_fixed (program : String) : ∀ a ∈ fixed, a.name program = a.name "" := by
  simp [fixed, name]

theorem name_fixed_injOn (ha : a ∈ fixed) (hb : b ∈ fixed)
    (h : a.name program = b.name program) : a = b := by
  have hnodup : (fixed.map (name "")).Nodup := by decide
  rw [name_of_mem_fixed _ a ha, name_of_mem_fixed _ b hb] at h
  exact List.inj_on_of_nodup_map hnodup ha hb h

/-! ### Names of constraints and of outputs -/

theorem constraint_name (index : Nat) (file : String) :
    (constraint index file).name program =
      "constraint_" ++ (toString index ++ ("_" ++ (file ++ ".lp"))) := by
  simp [name, ConstraintFile.numbered, String.append_assoc]

theorem output_name (size : Nat) :
    (output size).name program = "clingo_out_" ++ (toString size ++ ".out") := by
  simp [name, FileNames.attemptOutput, String.append_assoc]

/-- The name of a constraint gives back its number and the name it was given. -/
theorem constraint_name_inj {i j : Nat} {file other : String}
    (h : (constraint i file).name program = (constraint j other).name program) :
    i = j ∧ file = other := by
  rw [constraint_name, constraint_name, String.append_right_inj] at h
  have hslot (n : Nat) (rest : String) :
      Text.cutFirst? "_" (toString n ++ ("_" ++ rest)) = some (toString n, rest) :=
    Text.cutFirst?_append rfl fun hmem =>
      absurd (Text.isDigit_of_mem_toString hmem) (by decide)
  have hcut := congrArg (Text.cutFirst? "_") h
  rw [hslot, hslot] at hcut
  obtain ⟨hindex, hfile⟩ := Prod.mk.inj (Option.some.inj hcut)
  exact ⟨Text.toString_injective hindex, (String.append_left_inj _).mp hfile⟩

theorem fixed_name_ne_constraint {index : Nat} {file : String} (ha : a ∈ fixed) :
    a.name program ≠ (constraint index file).name program := by
  have hfixed : ∀ a ∈ fixed, Text.afterPrefix? "constraint_" (a.name "") = none := by decide
  intro heq
  have hnone := hfixed a ha
  rw [← name_of_mem_fixed program a ha, heq, constraint_name, Text.afterPrefix?_append] at hnone
  cases hnone

theorem fixed_name_ne_output {size : Nat} (ha : a ∈ fixed) :
    a.name program ≠ (output size).name program := by
  have hfixed : ∀ a ∈ fixed, Text.afterPrefix? "clingo_out_" (a.name "") = none := by decide
  intro heq
  have hnone := hfixed a ha
  rw [← name_of_mem_fixed program a ha, heq, output_name, Text.afterPrefix?_append] at hnone
  cases hnone

theorem constraint_name_ne_output {index size : Nat} {file : String} :
    (constraint index file).name program ≠ (output size).name program := by
  rw [constraint_name, output_name]
  intro heq
  simpa using congrArg (·.toList.tail.head?) heq

/-! ### Names of different files -/

/-- The program apart, every file has a name that a run chooses. -/
theorem isRunFile_name (ha : a ≠ .program) : Synthesis.IsRunFile (a.name program) := by
  cases a with
  | program => exact absurd rfl ha
  | constraint index file => exact .inr (.inr ⟨⟨file, ""⟩, index, rfl⟩)
  | output size => exact .inr (.inl ⟨size, rfl⟩)
  | _ => exact .inl (by simp [name])

/-- A name of another form is no name that a run chooses. -/
theorem not_isRunFile (hfixed : program ∉ fixed.map (name ""))
    (hconstraint : Text.afterPrefix? "constraint_" program = none)
    (houtput : Text.afterPrefix? "clingo_out_" program = none) :
    ¬ Synthesis.IsRunFile program := by
  rintro (h | ⟨size, rfl⟩ | ⟨file, index, rfl⟩)
  · exact hfixed h
  · change Text.afterPrefix? _ ((output size).name "") = none at houtput
    rw [output_name, Text.afterPrefix?_append] at houtput
    cases houtput
  · change Text.afterPrefix? _ ((constraint index file.name).name "") = none at hconstraint
    rw [constraint_name, Text.afterPrefix?_append] at hconstraint
    cases hconstraint

/-- Different files have different names, unless the program is called like another file. -/
theorem name_injective (hprogram : ¬ Synthesis.IsRunFile program) :
    Function.Injective (name program) := by
  have hne {a : Artefact} (ha : a ≠ .program) : a.name program ≠ program :=
    fun heq => hprogram (heq ▸ isRunFile_name ha)
  intro a b heq
  by_cases ha : a = .program
  · subst ha
    by_contra hb
    exact hne (Ne.symm hb) heq.symm
  by_cases hb : b = .program
  · subst hb
    exact absurd heq (hne ha)
  rcases a.kinds.imp_right (·.resolve_left ha) with ha | ⟨i, file, rfl⟩ | ⟨m, rfl⟩ <;>
    rcases b.kinds.imp_right (·.resolve_left hb) with hb | ⟨j, other, rfl⟩ | ⟨n, rfl⟩
  · exact name_fixed_injOn ha hb heq
  · exact absurd heq (fixed_name_ne_constraint ha)
  · exact absurd heq (fixed_name_ne_output ha)
  · exact absurd heq.symm (fixed_name_ne_constraint hb)
  · obtain ⟨rfl, rfl⟩ := constraint_name_inj heq
    rfl
  · exact absurd heq constraint_name_ne_output
  · exact absurd heq.symm (fixed_name_ne_output hb)
  · exact absurd heq.symm constraint_name_ne_output
  · obtain rfl := FileNames.attemptOutput_injective heq
    rfl

theorem isEntryName_of_mem_fixed (program : String) (ha : a ∈ fixed) :
    IsEntryName (a.name program) := by
  have hfixed : ∀ a ∈ fixed, IsEntryName (a.name "") := by decide
  rw [name_of_mem_fixed program a ha]
  exact hfixed a ha

theorem isEntryName_constraint {index : Nat} {file : String} (h : '/' ∉ file.toList) :
    IsEntryName ((constraint index file).name program) := by
  have hdigits : '/' ∉ (toString index).toList := fun hmem =>
    absurd (Text.isDigit_of_mem_toString hmem) (by decide)
  rw [constraint_name]
  refine ⟨fun heq => ?_, fun heq => ?_, fun heq => ?_, by simpa [h] using hdigits⟩
  all_goals simpa using congrArg (·.toList.head?) heq

/-- Only outputs of attempts are taken for such. -/
theorem attemptSize?_name (hprogram : a ≠ .program) (houtput : ∀ size, a ≠ .output size) :
    FileNames.attemptSize? (a.name program) = none := by
  have hfixed : ∀ a ∈ fixed, FileNames.attemptSize? (a.name "") = none := by decide
  rcases a.kinds with ha | rfl | ⟨index, file, rfl⟩ | ⟨size, rfl⟩
  · rw [name_of_mem_fixed program a ha]
    exact hfixed a ha
  · exact absurd rfl hprogram
  · exact FileNames.attemptSize?_append_lp _
  · exact absurd rfl (houtput size)

/-! ### The order of writing -/

/-- The phase of a run in which the file is written. A run that comes to the search goes through the
phases in order; each of the first eight writes one file. -/
def phase : Artefact → Nat
  | task => 0
  | controllerInstance => 1
  | weakInstance => 2
  | weakPlanOutput => 3
  | backbone => 4
  | .program => 5
  | undoOutput => 6
  | undoConstraints => 7
  | constraint _ _ => 8
  | output _ => 9
  | unsolvable | controllerText | controllerGraph | verification => 10

theorem eq_of_phase (ha : a.phase < 8) (h : b.phase = a.phase) : b = a := by
  cases a <;> cases b <;> simp_all [phase]

/-- The names of the files of earlier phases, and those taken for outputs, the old ones being removed. -/
def namesBefore (program : String) (phase : Nat) : Set String :=
  {name | (∃ a : Artefact, a.phase < phase ∧ a.name program = name) ∨
    FileNames.attemptSize? name ≠ none}

end Artefact

end StrongCyclic
