import StrongCyclic.Proofs.Synthesis.Artefacts

/-!
Programs under numbered names. The programs of the settings and those of the providers are written one
after the other, each with its number in its name. The number ends at the first underscore behind it,
whatever the program is called, so that no program is written in the place of another or of a file that
the run itself writes. What a program holds when it has been written is kept by every later step, and in
the end each of them holds its own text.
-/

namespace StrongCyclic

open FileTree Job Synthesis

variable {σ : Type} {directory path : Path} {index : Nat} {other : String}
  {files more : List ConstraintFile} {world after : World σ} {task : Task} {paths : List Path}
  {providers : List (ConstraintProvider σ)}

/-! ### Names -/

/-- The run itself chooses the name of the file, and the file is no program from outside. -/
def Artefact.IsOwn (a : Artefact) : Prop :=
  a ∈ fixed ∨ ∃ size, a = output size

theorem Artefact.IsOwn.isEntryName {a : Artefact} (h : a.IsOwn) (program : String) :
    IsEntryName (a.name program) := by
  rcases h with hfixed | ⟨size, rfl⟩
  · exact isEntryName_of_mem_fixed program hfixed
  · exact FileNames.isEntryName_attemptOutput size

theorem Artefact.IsOwn.name_ne_constraint {a : Artefact} (h : a.IsOwn) (program : String)
    (index : Nat) (file : String) : (constraint index file).name "" ≠ a.name program := by
  change (constraint index file).name program ≠ a.name program
  rcases h with hfixed | ⟨size, rfl⟩
  · exact (fixed_name_ne_constraint hfixed).symm
  · exact constraint_name_ne_output

namespace ConstraintFile

variable {a b : ConstraintFile} {i j : Nat}

theorem fileName?_numbered (ha : '/' ∉ a.name.toList) (directory : Path) (i : Nat) (program : String) :
    ((a.numbered i).pathIn directory).fileName? =
      some ((Artefact.constraint i a.name).name program) :=
  fileName?_join (Artefact.isEntryName_constraint ha) directory

theorem fileName?_numbered_eq_iff (ha : '/' ∉ a.name.toList) (hb : '/' ∉ b.name.toList) :
    ((a.numbered i).pathIn directory).fileName? = ((b.numbered j).pathIn directory).fileName? ↔
      i = j ∧ a.name = b.name := by
  rw [fileName?_numbered ha _ _ "", fileName?_numbered hb _ _ "", Option.some_inj]
  constructor
  · exact Artefact.constraint_name_inj
  · rintro ⟨rfl, hname⟩
    rw [hname]

theorem fileName?_numbered_ne (ha : '/' ∉ a.name.toList) {own : Artefact} (hown : own.IsOwn)
    (program : String) :
    ((a.numbered i).pathIn directory).fileName? ≠ some (own.name program) := by
  rw [fileName?_numbered ha _ _ "", Ne, Option.some_inj]
  exact hown.name_ne_constraint program i a.name

end ConstraintFile

/-- Each of the programs that are numbered from `index` on stands under its name. -/
def HoldsNumbered (directory : Path) (index : Nat) (files : List ConstraintFile) (tree : FileTree) :
    Prop :=
  ∀ entry ∈ files.zipIdx index,
    tree.read ((entry.1.numbered entry.2).pathIn directory) = .ok entry.1.contents

theorem holdsNumbered_cons {file : ConstraintFile} {tree : FileTree} :
    HoldsNumbered directory index (file :: files) tree ↔
      tree.read ((file.numbered index).pathIn directory) = .ok file.contents ∧
        HoldsNumbered directory (index + 1) files tree := by
  rw [HoldsNumbered, List.zipIdx_cons, List.forall_mem_cons]
  rfl

theorem holdsNumbered_append {tree : FileTree} :
    HoldsNumbered directory index (files ++ more) tree ↔
      HoldsNumbered directory index files tree ∧
        HoldsNumbered directory (index + files.length) more tree := by
  rw [HoldsNumbered, List.zipIdx_append, List.forall_mem_append]
  rfl

theorem HoldsNumbered.read {tree : FileTree} (h : HoldsNumbered directory index files tree) {k : Nat}
    {file : ConstraintFile} (hfile : files[k]? = some file) :
    tree.read ((file.numbered (index + k)).pathIn directory) = .ok file.contents :=
  h (file, index + k) (List.mk_add_mem_zipIdx_iff_getElem?.mpr hfile)

/-! ### Writing -/

/-- The names that the provider gives have no slashes. -/
def ConstraintProvider.GivesNames (provider : ConstraintProvider σ) : Prop :=
  ∀ ⦃task world files after⦄, Returns (provider task) world files after →
    ∀ file ∈ files, '/' ∉ file.name.toList

/-- The provider leaves the files in the directory alone whose names are numbered. -/
def ConstraintProvider.SparesNumbered (provider : ConstraintProvider σ) (directory : Path) : Prop :=
  ∀ task (file : ConstraintFile) index, '/' ∉ file.name.toList →
    (provider task).KeepsFile ((file.numbered index).pathIn directory)

theorem ConstraintProvider.OnlyReplies.sparesNumbered {provider : ConstraintProvider σ}
    (h : provider.OnlyReplies) (directory : Path) : provider.SparesNumbered directory :=
  fun task _ _ _ => (h task).keepsFile _

/-- The name is not numbered from `index` on. -/
def IsOutside (index : Nat) (other : String) : Prop :=
  ∀ i ≥ index, ∀ name, (Artefact.constraint i name).name "" ≠ other

theorem isOutside_constraint {i : Nat} (h : i < index) (name : String) :
    IsOutside index ((Artefact.constraint i name).name "") := by
  intro j hj other heq
  obtain ⟨rfl, -⟩ := Artefact.constraint_name_inj heq
  exact absurd h (Nat.not_lt.mpr hj)

theorem IsOutside.mono {i : Nat} (h : IsOutside index other) (hi : index ≤ i) : IsOutside i other :=
  fun j hj => h j (Nat.le_trans hi hj)

section Keeping

variable (hother : IsEntryName other)

include hother

/-- A program that is written leaves a file with another name as it is. -/
theorem keepsFile_write {file : ConstraintFile} (hname : '/' ∉ file.name.toList)
    (houtside : IsOutside index other) : KeepsFile (path.join other)
      ((file.numbered index).write directory : Job σ Failure Path) := by
  intro text
  refine .bind (.mapError (keeps_change fun world tree hwrite hread => ?_)) fun _ => keeps_pure
  exact (read_join_of_write_join (Artefact.isEntryName_constraint hname) hother
    (houtside index (Nat.le_refl _) file.name).symm hwrite).mpr hread

theorem keepsFile_writeNumbered (hnames : ∀ file ∈ files, '/' ∉ file.name.toList)
    (houtside : IsOutside index other) : KeepsFile (path.join other)
      (ConstraintFile.writeNumbered directory index files : Job σ Failure (List Path)) := by
  intro text
  induction files generalizing index with
  | nil => exact keeps_pure
  | cons file files ih =>
    obtain ⟨hname, hnames⟩ := List.forall_mem_cons.mp hnames
    exact .bind (keepsFile_write hother hname houtside text) fun _ =>
      .bind (ih hnames (houtside.mono (Nat.le_succ _))) fun _ => keeps_pure

theorem keepsFile_writeConstraints (hnames : ∀ provider ∈ providers, provider.GivesNames)
    (hproviders : ∀ provider ∈ providers, (provider task).KeepsFile (path.join other))
    (houtside : IsOutside index other) : KeepsFile (path.join other)
      (Workspace.writeConstraints directory task index providers) := by
  intro text
  induction providers generalizing index with
  | nil => exact keeps_pure
  | cons provider providers ih =>
    obtain ⟨hname, hnames⟩ := List.forall_mem_cons.mp hnames
    obtain ⟨hprovider, hproviders⟩ := List.forall_mem_cons.mp hproviders
    -- which names there are is known only once the provider has answered
    intro world paths after h hread
    obtain ⟨files, between, hfiles, h⟩ := returns_bind.mp h
    obtain ⟨written, last, hwrite, h⟩ := returns_bind.mp h
    obtain ⟨rest, ending, hrest, h⟩ := returns_bind.mp h
    obtain ⟨-, rfl⟩ := returns_pure.mp h
    refine ih hnames hproviders (houtside.mono (Nat.le_add_right _ _)) hrest ?_
    exact keepsFile_writeNumbered hother (hname hfiles) houtside text hwrite
      (hprovider text hfiles hread)

end Keeping

/-- What has been written is held while programs with higher numbers are written. -/
theorem HoldsNumbered.writeConstraints (hnames : ∀ provider ∈ providers, provider.GivesNames)
    (hspares : ∀ provider ∈ providers, provider.SparesNumbered directory)
    (hplain : ∀ file ∈ files, '/' ∉ file.name.toList)
    (h : Returns (Workspace.writeConstraints directory task (index + files.length) providers) world
      paths after)
    (hholds : HoldsNumbered directory index files world.files) :
    HoldsNumbered directory index files after.files := by
  rintro ⟨file, i⟩ hentry
  obtain ⟨-, hfile⟩ := List.mk_mem_zipIdx_iff_le_and_getElem?_sub.mp hentry
  have hlower : i < index + files.length := by
    have hlength := (List.getElem?_eq_some_iff.mp hfile).1
    omega
  have hname := hplain file (List.mem_of_getElem? hfile)
  exact keepsFile_writeConstraints (Artefact.isEntryName_constraint hname) hnames
    (fun provider hprovider => hspares provider hprovider task file i hname)
    (isOutside_constraint hlower file.name) file.contents h (hholds (file, i) hentry)

theorem holdsNumbered_of_writeNumbered (hplain : ∀ file ∈ files, '/' ∉ file.name.toList)
    (h : Returns (ConstraintFile.writeNumbered directory index files) world paths after) :
    HoldsNumbered directory index files after.files := by
  induction files generalizing index world paths with
  | nil => exact nofun
  | cons file files ih =>
    obtain ⟨hname, hplain⟩ := List.forall_mem_cons.mp hplain
    obtain ⟨first, between, hfirst, h⟩ := returns_bind.mp h
    obtain ⟨rest, last, hrest, h⟩ := returns_bind.mp h
    obtain ⟨-, rfl⟩ := returns_pure.mp h
    obtain ⟨tree, hwrite, -, rfl⟩ := write_returns_iff.mp hfirst
    refine holdsNumbered_cons.mpr ⟨?_, ih hplain hrest⟩
    exact keepsFile_writeNumbered (Artefact.isEntryName_constraint hname) hplain
      (isOutside_constraint (Nat.lt_succ_self _) file.name) file.contents hrest (read_of_write hwrite)

/-- Each provider is asked, and what it gives is written and held. -/
theorem writeConstraints_holds (hnames : ∀ provider ∈ providers, provider.GivesNames)
    (hspares : ∀ provider ∈ providers, provider.SparesNumbered directory)
    (h : Returns (Workspace.writeConstraints directory task index providers) world paths after) :
    ∃ provided, Provided providers task provided ∧
      (∀ file ∈ provided.flatten, '/' ∉ file.name.toList) ∧
      paths = numberedPaths directory index provided.flatten ∧
      HoldsNumbered directory index provided.flatten after.files := by
  induction providers generalizing index world paths with
  | nil =>
    obtain ⟨rfl, -⟩ := returns_pure.mp h
    exact ⟨[], .nil, by simp, rfl, nofun⟩
  | cons provider providers ih =>
    obtain ⟨hname, hnames⟩ := List.forall_mem_cons.mp hnames
    obtain ⟨-, hspares⟩ := List.forall_mem_cons.mp hspares
    obtain ⟨files, between, hfiles, h⟩ := returns_bind.mp h
    obtain ⟨written, last, hwrite, h⟩ := returns_bind.mp h
    obtain ⟨rest, ending, hrest, h⟩ := returns_bind.mp h
    obtain ⟨rfl, rfl⟩ := returns_pure.mp h
    obtain ⟨provided, hprovided, hplain, rfl, hothers⟩ := ih hnames hspares hrest
    obtain rfl := writeNumbered_returns hwrite
    have hplain_files := hname hfiles
    have hheld := (holdsNumbered_of_writeNumbered hplain_files hwrite).writeConstraints hnames
      hspares hplain_files hrest
    refine ⟨files :: provided, .cons ⟨world, between, hfiles⟩ hprovided, ?_, ?_, ?_⟩
    · exact List.forall_mem_append.mpr ⟨hplain_files, hplain⟩
    · rw [List.flatten_cons, numberedPaths_append]
    · exact holdsNumbered_append.mpr ⟨hheld, hothers⟩

/-! ### Where everything can be written -/

/-- Whatever there is, the provider gives these programs and leaves the files alone. -/
def ConstraintProvider.Gives (provider : ConstraintProvider σ) (task : Task)
    (files : List ConstraintFile) : Prop :=
  ∀ world, ∃ after, Returns (provider task) world files after ∧ after.files = world.files

theorem writable_of_writeNumbered
    (h : Returns (ConstraintFile.writeNumbered directory index files) world paths after) :
    after.files.Writable path ↔ world.files.Writable path := by
  induction files generalizing index world paths with
  | nil =>
    obtain ⟨-, rfl⟩ := returns_pure.mp h
    exact Iff.rfl
  | cons file files ih =>
    obtain ⟨first, between, hfirst, h⟩ := returns_bind.mp h
    obtain ⟨rest, last, hrest, h⟩ := returns_bind.mp h
    obtain ⟨-, rfl⟩ := returns_pure.mp h
    obtain ⟨tree, hwrite, -, rfl⟩ := write_returns_iff.mp hfirst
    exact (ih hrest).trans (writable_of_write hwrite)

theorem exists_writeNumbered_iff :
    (∃ paths after, Returns (ConstraintFile.writeNumbered directory index files) world paths after) ↔
      ∀ path ∈ numberedPaths directory index files, world.files.Writable path := by
  induction files generalizing index world with
  | nil => exact iff_of_true ⟨_, _, returns_pure.mpr ⟨rfl, rfl⟩⟩ nofun
  | cons file files ih =>
    rw [numberedPaths, List.zipIdx_cons, List.map_cons, List.forall_mem_cons, ← numberedPaths]
    constructor
    · rintro ⟨paths, after, h⟩
      obtain ⟨first, between, hfirst, h⟩ := returns_bind.mp h
      obtain ⟨rest, last, hrest, -⟩ := returns_bind.mp h
      obtain ⟨tree, hwrite, -, rfl⟩ := write_returns_iff.mp hfirst
      refine ⟨exists_write_iff.mp ⟨tree, hwrite⟩, fun path hpath => ?_⟩
      exact (writable_of_write hwrite).mp (ih.mp ⟨rest, last, hrest⟩ path hpath)
    · rintro ⟨hfirst, hothers⟩
      obtain ⟨tree, hwrite⟩ := exists_write_iff.mpr hfirst
      have hrest : ∃ paths after, Returns (ConstraintFile.writeNumbered directory (index + 1) files)
          { world with files := tree } paths after :=
        ih.mpr fun path hpath => (writable_of_write hwrite).mpr (hothers path hpath)
      obtain ⟨rest, last, hrest⟩ := hrest
      exact ⟨_, last, returns_bind.mpr ⟨_, _, write_returns_iff.mpr ⟨tree, hwrite, rfl, rfl⟩,
        returns_bind.mpr ⟨rest, last, hrest, returns_pure.mpr ⟨rfl, rfl⟩⟩⟩⟩

theorem exists_writeConstraints_cons_iff {provider : ConstraintProvider σ} {between : World σ}
    (hfiles : Returns (provider task) world files between) (hkept : between.files = world.files)
    (hothers : ∀ world, (∃ paths after, Returns (Workspace.writeConstraints directory task
        (index + files.length) providers) world paths after) ↔
      ∀ path ∈ numberedPaths directory (index + files.length) more, world.files.Writable path) :
    (∃ paths after, Returns (Workspace.writeConstraints directory task index
        (provider :: providers)) world paths after) ↔
      ∀ path ∈ numberedPaths directory index (files ++ more), world.files.Writable path := by
  rw [numberedPaths_append, List.forall_mem_append, ← hkept]
  constructor
  · rintro ⟨paths, after, h⟩
    obtain ⟨given, reached, hgiven, h⟩ := returns_bind.mp h
    obtain ⟨written, last, hwrite, h⟩ := returns_bind.mp h
    obtain ⟨rest, ending, hrest, -⟩ := returns_bind.mp h
    obtain ⟨rfl, rfl⟩ := hfiles.unique hgiven
    refine ⟨exists_writeNumbered_iff.mp ⟨written, last, hwrite⟩, fun path hpath => ?_⟩
    exact (writable_of_writeNumbered hwrite).mp ((hothers last).mp ⟨rest, ending, hrest⟩ path hpath)
  · rintro ⟨hfirst, hmore⟩
    obtain ⟨written, last, hwrite⟩ := exists_writeNumbered_iff.mpr hfirst
    obtain ⟨rest, ending, hrest⟩ := (hothers last).mpr fun path hpath =>
      (writable_of_writeNumbered hwrite).mpr (hmore path hpath)
    exact ⟨_, ending, returns_bind.mpr ⟨files, between, hfiles, returns_bind.mpr
      ⟨written, last, hwrite, returns_bind.mpr ⟨rest, ending, hrest, returns_pure.mpr ⟨rfl, rfl⟩⟩⟩⟩⟩

theorem exists_writeConstraints_iff {provided : List (List ConstraintFile)}
    (hgives : List.Forall₂ (fun provider files => provider.Gives task files) providers provided) :
    (∃ paths after, Returns (Workspace.writeConstraints directory task index providers) world paths
        after) ↔
      ∀ path ∈ numberedPaths directory index provided.flatten, world.files.Writable path := by
  induction hgives generalizing index world with
  | nil => exact iff_of_true ⟨_, _, returns_pure.mpr ⟨rfl, rfl⟩⟩ nofun
  | cons hfirst _ ih =>
    obtain ⟨between, hfiles, hkept⟩ := hfirst world
    exact exists_writeConstraints_cons_iff hfiles hkept fun _ => ih

/-! ### The programs of the settings and of the providers -/

theorem not_slash_of_fileStem? {path : Path} {name : String} (h : path.fileStem? = some name) :
    '/' ∉ name.toList := by
  obtain ⟨whole, hwhole, rfl⟩ := Option.map_eq_some_iff.mp h
  have hslash := (isEntryName_of_fileName? hwhole).not_slash
  rw [Path.stemOfName]
  split
  · exact hslash
  · exact hslash
  · next dot stem _ hdropped =>
    intro hmem
    have hsuffix : stem <:+ whole.toList.reverse :=
      (List.suffix_cons dot stem).trans (hdropped ▸ List.dropWhile_suffix _)
    refine hslash (List.mem_reverse.mp (hsuffix.subset ?_))
    simpa using hmem

namespace Synthesis

variable {s : Settings}

/-- The programs are those in the files of the settings. -/
def LoadedFrom (s : Settings) (tree : FileTree) (static : List ConstraintFile) : Prop :=
  List.Forall₂ (fun path file => path.fileStem? = some file.name ∧
    tree.read path = .ok file.contents) s.constraints.files static

theorem not_slash_of_loaded {tree : FileTree} (h : List.Forall₂ (fun path file =>
    path.fileStem? = some file.name ∧ tree.read path = .ok file.contents) paths files) :
    ∀ file ∈ files, '/' ∉ file.name.toList := by
  induction h with
  | nil => exact nofun
  | cons hfile _ ih => exact List.forall_mem_cons.mpr ⟨not_slash_of_fileStem? hfile.1, ih⟩

theorem gather_holds (hnames : ∀ provider ∈ providers, provider.GivesNames)
    (hspares : ∀ provider ∈ providers, provider.SparesNumbered directory)
    (h : Returns (gather s providers directory task) world paths after) :
    ∃ static provided, LoadedFrom s world.files static ∧ Provided providers task provided ∧
      (∀ file ∈ static ++ provided.flatten, '/' ∉ file.name.toList) ∧
      paths = numberedPaths directory 1 (static ++ provided.flatten) ∧
      HoldsNumbered directory 1 (static ++ provided.flatten) after.files := by
  obtain ⟨static, loaded, hload, h⟩ := returns_bind.mp h
  obtain ⟨written, between, hwrite, h⟩ := returns_bind.mp h
  obtain ⟨rest, last, hrest, h⟩ := returns_bind.mp h
  obtain ⟨rfl, rfl⟩ := returns_pure.mp h
  obtain ⟨hloaded, rfl⟩ := loadAll_returns_iff.mp hload
  have hstatic := not_slash_of_loaded hloaded
  have hheld := (holdsNumbered_of_writeNumbered hstatic hwrite).writeConstraints hnames hspares
    hstatic hrest
  obtain ⟨provided, hprovided, hplain, rfl, hothers⟩ := writeConstraints_holds hnames hspares hrest
  obtain rfl := writeNumbered_returns hwrite
  refine ⟨static, provided, hloaded, hprovided, List.forall_mem_append.mpr ⟨hstatic, hplain⟩, ?_,
    holdsNumbered_append.mpr ⟨hheld, hothers⟩⟩
  rw [numberedPaths_append]

theorem exists_gather_iff {provided : List (List ConstraintFile)}
    (hgives : List.Forall₂ (fun provider files => provider.Gives task files) providers provided) :
    (∃ paths after, Returns (gather s providers directory task) world paths after) ↔
      ∃ static, LoadedFrom s world.files static ∧
        ∀ path ∈ numberedPaths directory 1 (static ++ provided.flatten),
          world.files.Writable path := by
  have hwrites {static : List ConstraintFile}
      (hload : Returns (ConstraintFile.loadAll s.constraints.files) world static world) :
      (∃ paths after, Returns (gather s providers directory task) world paths after) ↔
        ∀ path ∈ numberedPaths directory 1 (static ++ provided.flatten), world.files.Writable path :=
    exists_writeConstraints_cons_iff hload rfl fun _ => exists_writeConstraints_iff hgives
  constructor
  · rintro ⟨paths, after, h⟩
    obtain ⟨static, loaded, hload, -⟩ := returns_bind.mp h
    obtain ⟨hloaded, rfl⟩ := loadAll_returns_iff.mp hload
    exact ⟨static, hloaded, (hwrites hload).mp ⟨paths, after, h⟩⟩
  · rintro ⟨static, hloaded, hwritable⟩
    exact (hwrites (loadAll_returns_iff.mpr ⟨hloaded, rfl⟩)).mpr hwritable

theorem givesNames_loadAll (paths : List Path) :
    @ConstraintProvider.GivesNames σ fun _ => ConstraintFile.loadAll paths := by
  intro _ world files after h
  exact not_slash_of_loaded (loadAll_returns_iff.mp h).1

theorem keepsFile_gather (hother : IsEntryName other)
    (hnames : ∀ provider ∈ providers, provider.GivesNames)
    (hproviders : ∀ provider ∈ providers, (provider task).KeepsFile (path.join other))
    (houtside : IsOutside 1 other) :
    KeepsFile (path.join other) (gather s providers directory task) :=
  keepsFile_writeConstraints hother (List.forall_mem_cons.mpr ⟨givesNames_loadAll _, hnames⟩)
    (List.forall_mem_cons.mpr ⟨(onlyReplies_loadAll _ task).keepsFile _, hproviders⟩) houtside

/-- The programs from outside are kept apart from each other and from the files of the run: the file name
of one gives back its number and its name, and it is no name that the run itself chooses. So each of them
holds its own text after all have been written, if the providers spare them, and a file of the run that the
providers leave alone is left as it is. All can be written if, and only if, each one can. -/
structure KeepsApart (s : Settings) (providers : List (ConstraintProvider σ)) (directory : Path)
    (task : Task) : Prop where
  named : ∀ (a b : ConstraintFile) (i j : Nat), '/' ∉ a.name.toList → '/' ∉ b.name.toList →
    (((a.numbered i).pathIn directory).fileName? = ((b.numbered j).pathIn directory).fileName? ↔
      i = j ∧ a.name = b.name)
  foreign : ∀ (a : ConstraintFile) (i : Nat), '/' ∉ a.name.toList → ∀ own : Artefact, own.IsOwn →
    ∀ program, ((a.numbered i).pathIn directory).fileName? ≠ some (own.name program)
  holds : (∀ provider ∈ providers, provider.GivesNames) →
    (∀ provider ∈ providers, provider.SparesNumbered directory) → ∀ world paths after,
    Returns (gather s providers directory task) world paths after →
      ∃ static provided, LoadedFrom s world.files static ∧ Provided providers task provided ∧
        paths = numberedPaths directory 1 (static ++ provided.flatten) ∧
        HoldsNumbered directory 1 (static ++ provided.flatten) after.files
  keeps : (∀ provider ∈ providers, provider.GivesNames) → ∀ own : Artefact, own.IsOwn → ∀ program,
    (∀ provider ∈ providers, (provider task).KeepsFile (directory.join (own.name program))) →
      KeepsFile (directory.join (own.name program)) (gather s providers directory task)
  written : ∀ world provided,
    List.Forall₂ (fun provider files => provider.Gives task files) providers provided →
      ((∃ paths after, Returns (gather s providers directory task) world paths after) ↔
        ∃ static, LoadedFrom s world.files static ∧
          ∀ path ∈ numberedPaths directory 1 (static ++ provided.flatten), world.files.Writable path)

/-- Whatever the programs are called, and wherever they come from. -/
theorem gather_keepsApart (s : Settings) (providers : List (ConstraintProvider σ))
    (directory : Path) (task : Task) : KeepsApart s providers directory task where
  named _ _ _ _ ha hb := ConstraintFile.fileName?_numbered_eq_iff ha hb
  foreign _ _ ha _ hown := ConstraintFile.fileName?_numbered_ne ha hown
  holds hnames hspares world paths after h := by
    obtain ⟨static, provided, hloaded, hprovided, -, hpaths, hholds⟩ :=
      gather_holds hnames hspares h
    exact ⟨static, provided, hloaded, hprovided, hpaths, hholds⟩
  keeps hnames own hown program hkept :=
    keepsFile_gather (hown.isEntryName program) hnames hkept
      fun i _ file => hown.name_ne_constraint program i file
  written _ _ hgives := exists_gather_iff hgives

/-- A directory of a run, and two programs from elsewhere. One is called like the instance, the other
like a program that has a number already. -/
def knowledgeWorld : World Unit where
  files := ⟨[(["out"], .directory), (["out", "instance.lp"], .file "step(0)."),
    (["kb"], .directory), (["kb", "instance.lp"], .file "% a"), (["kb", "1_x.lp"], .file "% b")], []⟩
  solver := ()
  clock := ⟨0⟩

/-- Another program that is called like the instance, and one whose name is the end of another's. -/
def knowledgeProvider : ConstraintProvider Unit :=
  fun _ => return [⟨"instance", "% c"⟩, ⟨"x", "% d"⟩]

theorem gives_knowledgeProvider (task : Task) :
    knowledgeProvider.Gives task [⟨"instance", "% c"⟩, ⟨"x", "% d"⟩] :=
  fun world => ⟨world, returns_pure.mpr ⟨rfl, rfl⟩, rfl⟩

theorem onlyReplies_knowledgeProvider : knowledgeProvider.OnlyReplies := by
  intro task world files after h
  obtain ⟨-, rfl⟩ := returns_pure.mp h
  rfl

theorem givesNames_knowledgeProvider : knowledgeProvider.GivesNames := by
  intro task world files after h
  obtain ⟨rfl, -⟩ := returns_pure.mp h
  decide

/-- The settings with the programs from elsewhere. -/
def knowledgeSettings : Settings where
  constraints := { files := [⟨"/kb/instance.lp"⟩, ⟨"/kb/1_x.lp"⟩] }

theorem loadedFrom_knowledge :
    LoadedFrom knowledgeSettings knowledgeWorld.files [⟨"instance", "% a"⟩, ⟨"1_x", "% b"⟩] :=
  .cons ⟨by decide, by decide +kernel⟩ (.cons ⟨by decide, by decide +kernel⟩ .nil)

theorem gather_keepsApart_knowledge :
    ∃ paths after, Returns (gather knowledgeSettings [knowledgeProvider] ⟨"/out"⟩ default)
        knowledgeWorld paths after ∧
      HoldsNumbered ⟨"/out"⟩ 1
        [⟨"instance", "% a"⟩, ⟨"1_x", "% b"⟩, ⟨"instance", "% c"⟩, ⟨"x", "% d"⟩] after.files ∧
      after.files.read ⟨"/out/instance.lp"⟩ = .ok "step(0)." := by
  have happart := gather_keepsApart knowledgeSettings [knowledgeProvider] ⟨"/out"⟩ default
  have hnames : ∀ provider ∈ [knowledgeProvider], provider.GivesNames :=
    List.forall_mem_singleton.mpr givesNames_knowledgeProvider
  obtain ⟨paths, after, h⟩ :=
    (happart.written knowledgeWorld _ (.cons (gives_knowledgeProvider _) .nil)).mpr
      ⟨_, loadedFrom_knowledge, by decide +kernel⟩
  obtain ⟨static, provided, hloaded, hprovided, -, hholds⟩ := happart.holds hnames
    (List.forall_mem_singleton.mpr (onlyReplies_knowledgeProvider.sparesNumbered _)) _ _ _ h
  obtain ⟨rfl, -⟩ := (loadAll_returns_iff.mpr ⟨hloaded, rfl⟩).unique
    (loadAll_returns_iff.mpr ⟨loadedFrom_knowledge, rfl⟩)
  obtain ⟨files, rest, ⟨before, between, hgiven⟩, hnil, rfl⟩ := List.forall₂_cons_left_iff.mp hprovided
  obtain rfl := List.forall₂_nil_left_iff.mp hnil
  obtain ⟨rfl, -⟩ := returns_pure.mp hgiven
  refine ⟨paths, after, h, hholds, ?_⟩
  exact happart.keeps hnames .controllerInstance (.inl (by decide)) "" (List.forall_mem_singleton.mpr
    ((onlyReplies_knowledgeProvider _).keepsFile _)) "step(0)." h (by decide +kernel)

end Synthesis

end StrongCyclic
