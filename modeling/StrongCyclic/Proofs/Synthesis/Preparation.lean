import StrongCyclic.Proofs.Search.SizeSearch
import StrongCyclic.Proofs.Synthesis.Calls
import StrongCyclic.Proofs.Synthesis.Workspace

/-!
What comes before the search for a controller: the search for a weak plan, the detection of undo
pairs and the constraints. All of it writes aside, if the solver and the providers of constraints
only answer, and of the weak plan only its length reaches the sizes to try.
-/

namespace StrongCyclic

/-- The provider answers without touching the files. -/
def ConstraintProvider.OnlyReplies {σ : Type} (provider : ConstraintProvider σ) : Prop :=
  ∀ task, (provider task).KeepsFiles

namespace Synthesis

open FileTree Job Place RunDirectory

variable {σ : Type} {directory : Place} {aside : String → Prop} {K : FileTree → Prop}
  {s : Settings} {solver : Solver σ} {task : Task} {deadline : Deadline} {world after : World σ}
  {weak undo : Option Exchange}

theorem keeps_locateOption {K : World σ → Prop} (path : Option Path) :
    Keeps K (locateOption path) := by
  cases path with
  | none => exact keeps_pure
  | some path => exact .bind (keeps_locate path) fun _ => keeps_pure

section Keeping

variable (hK : StableUnder aside directory fun world : World σ => K world.files)
  (hplace : Proper directory)

include hK hplace

theorem keeps_writeInstance (task : Task) (purpose : Encoding.Purpose) {name : String}
    (hname : IsEntryName name) (haside : aside name) :
    Keeps (fun world : World σ => K world.files)
      (writeInstance s task purpose ((pathOf directory).join name)) :=
  (keeps_write hK hplace hname haside _).mapError

theorem keeps_writeFile (text : String) {name : String} (hname : IsEntryName name)
    (haside : aside name) :
    Keeps (fun world : World σ => K world.files) (writeFile ((pathOf directory).join name) text) :=
  (keeps_write hK hplace hname haside text).mapError

variable (hnames : HasRunNames aside)

include hnames

/-! ### The weak plan -/

theorem keeps_weakPlanCall (task : Task) :
    Keeps (fun world : World σ => K world.files) (weakPlanCall s (pathOf directory) task) := by
  refine .bind (keeps_writeInstance hK hplace task _ (by decide)
    (hnames.program "instance_weak")).mapError fun _ => ?_
  exact .bind (keeps_locate _) fun program => .bind (keeps_locateOption _) fun _ => keeps_pure

theorem keeps_readEstimate (run : SolverRun) :
    Keeps (fun world : World σ => K world.files)
      (readEstimate ((pathOf directory).join FileNames.weakPlanOutput) run) := by
  refine .bind (keeps_write hK hplace (by decide) hnames.weakPlanOutput _).mapError fun _ => ?_
  split
  · exact keeps_pure
  · exact .bind keeps_ofExcept fun out => .bind keeps_ofExcept fun b => keeps_pure

theorem keeps_useEstimate (estimate : BackboneEstimate)
    (hmark : estimate = .unsolvable → aside FileNames.unsolvable) :
    Keeps (fun world : World σ => K world.files)
      (useEstimate s (pathOf directory) estimate) := by
  cases estimate with
  | unsolvable =>
    exact .bind (keeps_writeFile hK hplace _ (by decide) (hmark rfl)) fun _ => keeps_pure
  | timedOut => exact keeps_pure
  | found b =>
    rw [useEstimate]
    split
    · exact keeps_pure
    · exact .bind (keeps_writeFile hK hplace _ (by decide) (hnames.program "backbone")) fun _ =>
        keeps_pure

theorem useWeakReply_keeps {run : SolverRun} {found : SolveOutcome ⊕ Hints}
    (hmark : found = .inl .unsolvable → aside FileNames.unsolvable)
    (h : Returns (useWeakReply s (pathOf directory) run) world found after)
    (hworld : K world.files) : K after.files := by
  obtain ⟨estimate, between, hestimate, h⟩ := returns_bind.mp h
  have hbetween := keeps_readEstimate hK hplace hnames run (returns_during.mp hestimate) hworld
  refine keeps_useEstimate hK hplace hnames estimate ?_ h hbetween
  rintro rfl
  obtain ⟨_, last, -, h⟩ := returns_bind.mp h
  exact hmark (returns_pure.mp h).1.symm

theorem HintsRun.keeps (hsolver : solver.OnlyReplies) {found : SolveOutcome ⊕ Hints}
    (hmark : found = .inl .unsolvable → aside FileNames.unsolvable)
    (h : HintsRun s solver (pathOf directory) task deadline world (.ok found) after weak)
    (hworld : K world.files) : K after.files := by
  cases h with
  | disabled => exact hworld
  | settled _ hcall hreply huse =>
    refine useWeakReply_keeps hK hplace hnames hmark huse ?_
    rw [hsolver _ _ hreply]
    exact keeps_weakPlanCall hK hplace hnames task hcall hworld

theorem keeps_findHints (hsolver : solver.OnlyReplies) (hmark : aside FileNames.unsolvable)
    (task : Task) (deadline : Deadline) :
    Keeps (fun world => K world.files) (findHints s solver (pathOf directory) task deadline) := by
  intro world found after h hworld
  obtain ⟨_, weak, -, hrun⟩ := (traced_findHints s solver _ task deadline world).of_returns h
  exact hrun.keeps hK hplace hnames hsolver (fun _ => hmark) hworld

/-! ### Undo pairs -/

theorem keeps_useUndoReply (run : SolverRun) :
    Keeps (fun world : World σ => K world.files) (useUndoReply s (pathOf directory) run) := by
  refine .bind (.mapError (.bind
    (keeps_write hK hplace (by decide) hnames.undoOutput _).mapError fun _ =>
      .bind keeps_ofExcept fun out => keeps_pure)) fun file => ?_
  exact .bind (keeps_writeConstraint hK hnames file _).mapError fun _ => keeps_pure

theorem UndoRun.keeps (hsolver : solver.OnlyReplies) {instanceFile : Path} {paths : List Path}
    (h : UndoRun s solver (pathOf directory) instanceFile deadline world (.ok paths) after undo)
    (hworld : K world.files) : K after.files := by
  cases h with
  | unset => exact hworld
  | settled _ hlocate hreply huse =>
    refine keeps_useUndoReply hK hplace hnames _ huse ?_
    dsimp only
    rw [hsolver _ _ hreply]
    exact keeps_locate (K := fun world => K world.files) _ hlocate hworld

theorem keeps_forbidUndo (hsolver : solver.OnlyReplies) (instanceFile : Path)
    (deadline : Deadline) :
    Keeps (fun world => K world.files)
      (forbidUndo s solver (pathOf directory) instanceFile deadline) := by
  intro world paths after h hworld
  obtain ⟨_, undo, -, hrun⟩ :=
    (traced_forbidUndo s solver _ instanceFile deadline world).of_returns h
  exact hrun.keeps hK hplace hnames hsolver hworld

end Keeping

theorem keeps_writeConstraints
    (hK : StableUnder aside directory fun world : World σ => K world.files)
    (hnames : HasRunNames aside) {providers : List (ConstraintProvider σ)}
    (hproviders : ∀ provider ∈ providers, provider.OnlyReplies) (path : Path) (task : Task)
    (index : Nat) :
    Keeps (fun world => K world.files)
      (Workspace.writeConstraints path task index providers) := by
  induction providers generalizing index with
  | nil => exact keeps_pure
  | cons provider providers ih =>
    obtain ⟨hprovider, hrest⟩ := List.forall_mem_cons.mp hproviders
    refine .bind (hprovider task).keeps fun files => ?_
    exact .bind (keeps_writeNumbered hK hnames path index files) fun _ => .bind (ih hrest _)
      fun _ => keeps_pure

/-! ### What reaches the search -/

/-- The sizes to try, from the length of the backbone on, if there is one. -/
def sizesFromBackbone (s : Settings) (backbone : Option Nat) : SizeRange :=
  { s.solver.sizes with min := max s.solver.sizes.min (backbone.getD 0) }

/-- The constraints of the backbone, if a backbone is there and not only its length counts. -/
def backbonePaths (s : Settings) (directory : Path) : List Path :=
  if s.backbone.enabled && !s.backbone.sizeOnly then [directory.join FileNames.backbone] else []

/-- The constraints against undo pairs, if a program for them is set. -/
def undoPaths (s : Settings) (directory : Path) : List Path :=
  if s.constraints.undoProgram.isSome then [directory.join (FileNames.undoConstraints ++ ".lp")]
  else []

section Found

variable {directory : Path}

/-- What ends the work before the search is found out by a call. -/
theorem HintsRun.ended {outcome : SolveOutcome}
    (h : HintsRun s solver directory task deadline world (.ok (.inl outcome)) after weak) :
    s.backbone.enabled = true ∧ weak ≠ none ∧
      (outcome = .unsolvable ∨ outcome = .timedOut s.solver.sizes.min) := by
  cases h with
  | settled henabled _ _ _ hfound =>
    refine ⟨henabled, Option.some_ne_none _, ?_⟩
    cases hfound with
    | timedOut => exact .inr rfl
    | unsolvable => exact .inl rfl

/-- What the hints are. -/
theorem HintsRun.hinted {hints : Hints}
    (h : HintsRun s solver directory task deadline world (.ok (.inr hints)) after weak) :
    (weak ≠ none ↔ s.backbone.enabled = true) ∧
      (hints.backbone ≠ none ↔ s.backbone.enabled = true) ∧
      hints.constraints = backbonePaths s directory ∧
      hints.sizes = sizesFromBackbone s hints.backbone := by
  cases h with
  | disabled hdisabled =>
    simp [hdisabled, Hints.ofSettings, backbonePaths, sizesFromBackbone]
  | settled henabled _ _ _ hfound =>
    cases hfound with
    | found =>
      refine ⟨by simp [henabled], by simp [henabled, Hints.ofBackbone], ?_, rfl⟩
      cases hsize : s.backbone.sizeOnly <;> simp [backbonePaths, Hints.ofBackbone, henabled, hsize]

theorem UndoRun.forbidden {instanceFile : Path} {paths : List Path}
    (h : UndoRun s solver directory instanceFile deadline world (.ok paths) after undo) :
    (undo ≠ none ↔ s.constraints.undoProgram ≠ none) ∧ paths = undoPaths s directory := by
  cases h with
  | unset hunset => simp [hunset, undoPaths]
  | settled hset => simp [hset, undoPaths]

/-- The search for hints ends the work, or it raises the least size to the length of the backbone. -/
theorem findHints_returns {result : SolveOutcome ⊕ Hints}
    (h : Returns (findHints s solver directory task deadline) world result after) :
    (∃ outcome, result = .inl outcome ∧ outcome.isSolved = false) ∨
      ∃ hints, result = .inr hints ∧ hints.sizes = sizesFromBackbone s hints.backbone := by
  obtain ⟨_, weak, -, hrun⟩ := (traced_findHints s solver _ task deadline world).of_returns h
  cases result with
  | inl outcome =>
    obtain ⟨-, -, rfl | rfl⟩ := hrun.ended
    · exact .inl ⟨_, rfl, rfl⟩
    · exact .inl ⟨_, rfl, rfl⟩
  | inr hints => exact .inr ⟨hints, rfl, hrun.hinted.2.2.2⟩

end Found

end Synthesis

end StrongCyclic
