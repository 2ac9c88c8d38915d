import StrongCyclic.Proofs.Synthesis.NumberedFiles

/-!
The programs that come from outside, in the directory of a run. If the providers only answer, no other
file is touched while they are written, so that the rest of the directory is as it was.
-/

namespace StrongCyclic

open FileTree Job Place

variable {σ : Type} {world after : World σ}

/-- The programs have been written under the names numbered from `index` on, and no other file has
been touched. -/
structure WritesNumbered (directory : Place) (program : String) (index : Nat)
    (files : List ConstraintFile) (before after : FileTree) : Prop where
  touches : Touches directory
    {name | ∃ i file, index ≤ i ∧ (Artefact.constraint i file).name program = name} before after
  reads : ∀ k file, files[k]? = some file → after.read ((pathOf directory).join
    ((Artefact.constraint (index + k) file.name).name program)) = .ok file.contents

/-- The names that are numbered from `index` on. -/
def numberedNames (program : String) (index : Nat) : Set String :=
  {name | ∃ i file, index ≤ i ∧ (Artefact.constraint i file).name program = name}

theorem numberedNames_mono (program : String) {index i : Nat} (h : index ≤ i) :
    numberedNames program i ⊆ numberedNames program index :=
  fun _ ⟨j, file, hj, hname⟩ => ⟨j, file, Nat.le_trans h hj, hname⟩

namespace Synthesis

variable {s : Settings} {providers : List (ConstraintProvider σ)} {directory : Place} {task : Task}

section Gathering

variable (hplace : Proper directory)

include hplace

theorem writeNumbered_touches (program : String) {index : Nat} {files : List ConstraintFile}
    {paths : List Path} (hnames : ∀ file ∈ files, '/' ∉ file.name.toList)
    (h : Returns (ConstraintFile.writeNumbered (pathOf directory) index files) world paths after) :
    Touches directory (numberedNames program index) world.files after.files := by
  induction files generalizing index world paths with
  | nil =>
    obtain ⟨-, rfl⟩ := returns_pure.mp h
    exact .refl _ _ _
  | cons file files ih =>
    obtain ⟨hname, hrest⟩ := List.forall_mem_cons.mp hnames
    obtain ⟨path, between, hfirst, h⟩ := returns_bind.mp h
    obtain ⟨others, last, hothers, h⟩ := returns_bind.mp h
    obtain ⟨-, rfl⟩ := returns_pure.mp h
    obtain ⟨tree, hwrite, -, rfl⟩ := write_returns_iff.mp hfirst
    have hone : Touches directory {(Artefact.constraint index file.name).name program}
        world.files tree :=
      touches_of_alter hplace (Artefact.isEntryName_constraint hname) hwrite
    refine (hone.mono ?_).append ((ih hrest hothers).mono (numberedNames_mono _ (Nat.le_succ _)))
    rintro name rfl
    exact ⟨index, file.name, Nat.le_refl _, rfl⟩

theorem writeConstraints_touches (program : String) {index : Nat} {paths : List Path}
    (hproviders : ∀ provider ∈ providers, provider.OnlyReplies)
    (hnames : ∀ provider ∈ providers, provider.GivesNames)
    (h : Returns (Workspace.writeConstraints (pathOf directory) task index providers) world paths
      after) :
    Touches directory (numberedNames program index) world.files after.files := by
  induction providers generalizing index world paths with
  | nil =>
    obtain ⟨-, rfl⟩ := returns_pure.mp h
    exact .refl _ _ _
  | cons provider providers ih =>
    obtain ⟨hprovider, hproviders⟩ := List.forall_mem_cons.mp hproviders
    obtain ⟨hname, hnames⟩ := List.forall_mem_cons.mp hnames
    obtain ⟨files, between, hfiles, h⟩ := returns_bind.mp h
    obtain ⟨written, last, hwrite, h⟩ := returns_bind.mp h
    obtain ⟨rest, ending, hrest, h⟩ := returns_bind.mp h
    obtain ⟨-, rfl⟩ := returns_pure.mp h
    have hfirst := writeNumbered_touches hplace program (hname hfiles) hwrite
    rw [hprovider task hfiles] at hfirst
    exact hfirst.append ((ih hproviders hnames hrest).mono
      (numberedNames_mono _ (Nat.le_add_right _ _)))

/-- The programs of the settings, as they are when they are loaded, are written first, and those of the
providers after them. -/
theorem gather_writes (program : String) {paths : List Path}
    (hproviders : ∀ provider ∈ providers, provider.OnlyReplies)
    (hnames : ∀ provider ∈ providers, provider.GivesNames)
    (h : Returns (gather s providers (pathOf directory) task) world paths after) :
    ∃ static provided, LoadedFrom s world.files static ∧ Provided providers task provided ∧
      (∀ file ∈ static ++ provided.flatten, '/' ∉ file.name.toList) ∧
      paths = numberedPaths (pathOf directory) 1 (static ++ provided.flatten) ∧
      WritesNumbered directory program 1 (static ++ provided.flatten) world.files after.files := by
  obtain ⟨static, provided, hloaded, hprovided, hplain, hpaths, hholds⟩ := gather_holds hnames
    (fun provider hprovider => (hproviders provider hprovider).sparesNumbered _) h
  have htouches := writeConstraints_touches hplace program
    (List.forall_mem_cons.mpr ⟨onlyReplies_loadAll _, hproviders⟩)
    (List.forall_mem_cons.mpr ⟨givesNames_loadAll _, hnames⟩) h
  exact ⟨static, provided, hloaded, hprovided, hplain, hpaths, htouches,
    fun k file hfile => hholds.read hfile⟩

end Gathering

end Synthesis

end StrongCyclic
