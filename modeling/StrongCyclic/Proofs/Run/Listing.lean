import Mathlib.Data.Set.Insert
import StrongCyclic.Proofs.Synthesis.Workspace

/-!
The names in the directory of a run. Two kinds of them tell how a run has gone: those of the outputs of
attempts, by which a later check goes, and the mark that there is no weak plan. Whatever else a run
writes is called otherwise, except that the controller program keeps its own name.
-/

namespace StrongCyclic.RunDirectory

open FileTree Job Place

variable {σ : Type} {directory : Place} {names : Set String} {tree : FileTree}
  {world after : World σ}

/-- The name of the output of an attempt, or the mark that there is no weak plan. -/
def Tells (name : String) : Prop :=
  FileNames.attemptSize? name ≠ none ∨ name = FileNames.unsolvable

instance (name : String) : Decidable (Tells name) :=
  inferInstanceAs (Decidable (_ ∨ _))

theorem hasRunNames_not_tells : HasRunNames (¬ Tells ·) where
  program s := not_or.mpr
    ⟨not_not.mpr (FileNames.attemptSize?_append_lp s), FileNames.append_lp_ne (by decide)⟩
  weakPlanOutput := by decide
  undoOutput := by decide
  controllerText := by decide
  controllerGraph := by decide
  verification := by decide

/-- Of the names that tell how a run has gone, these are in the directory. -/
def Lists (directory : Place) (names : Set String) (tree : FileTree) : Prop :=
  ∀ name, Tells name → (name ∈ tree.namesIn directory ↔ name ∈ names)

theorem lists_self (directory : Place) (tree : FileTree) :
    Lists directory {name | name ∈ tree.namesIn directory} tree :=
  fun _ _ => Iff.rfl

theorem Lists.congr {names' : Set String} (h : Lists directory names tree)
    (hnames : ∀ name, Tells name → (name ∈ names ↔ name ∈ names')) :
    Lists directory names' tree :=
  fun name htells => (h name htells).trans (hnames name htells)

theorem Lists.put (h : Lists directory names tree) (name : String) (entry : Entry) :
    Lists directory (insert name names) (tree.put (directory ++ [name]) entry) := by
  intro other htells
  rw [mem_namesIn_put_iff, h other htells, Set.mem_insert_iff, or_comm]

theorem stable_lists :
    StableUnder (¬ Tells ·) directory fun world : World σ => Lists directory names world.files := by
  intro world place entry hother h name htells
  rw [← h name htells]
  refine ⟨fun hname => (mem_namesIn_put hname).resolve_right fun hplace => ?_,
    mem_namesIn_put_of_mem⟩
  exact hother name hplace htells

/-- Old outputs are removed, and the mark stays. -/
theorem removeOutputs_lists {count : Nat} (hplace : Proper directory)
    (h : Returns (removeOutputs (pathOf directory)) world count after)
    (hworld : Lists directory names world.files) :
    Lists directory {name | name ∈ names ∧ FileNames.attemptSize? name = none} after.files := by
  intro name htells
  rw [mem_namesIn_removeOutputs hplace h, hworld name htells]
  rfl

/-- The controller program is in the directory after it has been copied. -/
theorem copyProgram_lists {program model : Path} (hplace : Proper directory)
    (h : Returns (Workspace.copyProgram program (pathOf directory)) world model after)
    (hworld : Lists directory names world.files) :
    ∃ name, program.fileName? = some name ∧ Lists directory (insert name names) after.files := by
  rw [Workspace.copyProgram] at h
  split at h
  · exact absurd h not_returns_throw
  next name hname =>
  obtain ⟨_, copied, hcopy, h⟩ := returns_bind.mp h
  obtain ⟨-, rfl⟩ := returns_pure.mp h
  refine ⟨name, hname, ?_⟩
  rcases copyInto_returns hplace (isEntryName_of_fileName? hname) hcopy with
    ⟨rfl, hmem, -⟩ | ⟨text, -, rfl⟩
  · refine hworld.congr fun other htells => ⟨Set.mem_insert_of_mem name, fun hother => ?_⟩
    obtain rfl | hother := Set.mem_insert_iff.mp hother
    · exact (hworld other htells).mp hmem
    · exact hother
  · exact hworld.put name _

end StrongCyclic.RunDirectory
