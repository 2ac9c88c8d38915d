import StrongCyclic.Run.World

/-!
Jobs that end with a result. A sequence of jobs ends with a result only if each of its parts does,
and the parts hand the world on. `Returns` says how a job ends; `Keeps` says that a job leaves a
property of the world in place whenever it ends with a result. Of a job that ends with an error
neither says anything; `Maintains` is `Keeps` for whatever ending.
-/

namespace StrongCyclic.Job

variable {σ ε ε' α β : Type}

/-! ### Runs -/

theorem run_bind (job : Job σ ε α) (next : α → Job σ ε β) (world : World σ) :
    (job >>= next).run.run world =
      match job.run.run world with
      | (.ok a, between) => (next a).run.run between
      | (.error e, between) => (.error e, between) := by
  rw [ExceptT.run_bind, StateT.run_bind]
  rcases job.run.run world with ⟨result, between⟩
  cases result <;> rfl

theorem run_mapError (f : ε → ε') (job : Job σ ε α) (world : World σ) :
    (mapError f job).run.run world =
      ((job.run.run world).1.mapError f, (job.run.run world).2) :=
  rfl

theorem mapError_bind (f : ε → ε') (job : Job σ ε α) (next : α → Job σ ε β) :
    mapError f (job >>= next) = mapError f job >>= fun a => mapError f (next a) := by
  funext world
  change (mapError f (job >>= next)).run.run world =
    (mapError f job >>= fun a => mapError f (next a)).run.run world
  rw [run_bind, run_mapError, run_mapError, run_bind]
  rcases job.run.run world with ⟨result, between⟩
  cases result <;> rfl

theorem run_change (f : FileTree → Except FileFault FileTree) (world : World σ) :
    (change f : Job σ FileFault Unit).run.run world =
      match f world.files with
      | .ok files => (.ok (), { world with files })
      | .error fault => (.error fault, world) := by
  rw [change, run_bind]
  change (match f world.files with
    | .ok files => (set { world with files } : Job σ FileFault Unit)
    | .error fault => throw fault).run.run world = _
  cases f world.files <;> rfl

/-! ### Results -/

/-- The job, started in `world`, ends with the result `a` in the world `after`. -/
def Returns (job : Job σ ε α) (world : World σ) (a : α) (after : World σ) : Prop :=
  job.run.run world = (.ok a, after)

section Ending

variable {world after : World σ} {a b : α}

theorem returns_of_run {job : Job σ ε α} (h : (job.run.run world).1 = .ok a) :
    Returns job world a (job.run.run world).2 := by
  rw [Returns, ← h]
  rfl

theorem Returns.unique {job : Job σ ε α} {last : World σ} (h : Returns job world a after)
    (hagain : Returns job world b last) : a = b ∧ after = last := by
  obtain ⟨hresult, hworld⟩ := Prod.mk.inj (h.symm.trans hagain)
  exact ⟨Except.ok.inj hresult, hworld⟩

theorem returns_pure : Returns (pure a : Job σ ε α) world b after ↔ a = b ∧ world = after := by
  change ((.ok a, world) : Except ε α × World σ) = (.ok b, after) ↔ _
  simp

theorem not_returns_throw {e : ε} : ¬ Returns (throw e : Job σ ε α) world a after := by
  change ¬ ((.error e, world) : Except ε α × World σ) = (.ok a, after)
  simp

theorem returns_bind {job : Job σ ε α} {next : α → Job σ ε β} {b : β} :
    Returns (job >>= next) world b after ↔
      ∃ a between, Returns job world a between ∧ Returns (next a) between b after := by
  simp only [Returns, ExceptT.run_bind, StateT.run_bind]
  rcases hrun : job.run.run world with ⟨result, between⟩
  cases result with
  | ok a =>
    constructor
    · exact fun h => ⟨a, between, rfl, h⟩
    · rintro ⟨a', between', heq, h⟩
      cases heq
      exact h
  | error e =>
    constructor
    · intro h
      cases h
    · rintro ⟨a', between', heq, h⟩
      cases heq

theorem returns_get {seen : World σ} :
    Returns (get : Job σ ε (World σ)) world seen after ↔ world = seen ∧ world = after := by
  change ((.ok world, world) : Except ε (World σ) × World σ) = (.ok seen, after) ↔ _
  simp

theorem returns_set {new : World σ} {u : PUnit} :
    Returns (set new : Job σ ε PUnit) world u after ↔ new = after := by
  change ((.ok PUnit.unit, new) : Except ε PUnit × World σ) = (.ok u, after) ↔ _
  simp

theorem returns_inspect {f : FileTree → α} :
    Returns (inspect f : Job σ ε α) world a after ↔ f world.files = a ∧ world = after := by
  change ((.ok (f world.files), world) : Except ε α × World σ) = (.ok a, after) ↔ _
  simp

theorem returns_ofExcept {result : Except ε α} :
    Returns (ofExcept result : Job σ ε α) world a after ↔ result = .ok a ∧ world = after := by
  change ((result, world) : Except ε α × World σ) = (.ok a, after) ↔ _
  simp

theorem returns_query {f : FileTree → Except FileFault α} :
    Returns (query f : Job σ FileFault α) world a after ↔
      f world.files = .ok a ∧ world = after := by
  change ((f world.files, world) : Except FileFault α × World σ) = (.ok a, after) ↔ _
  simp

theorem returns_change {f : FileTree → Except FileFault FileTree} {u : Unit} :
    Returns (change f : Job σ FileFault Unit) world u after ↔
      ∃ files, f world.files = .ok files ∧ after = { world with files } := by
  simp only [change, returns_bind, returns_get]
  constructor
  · rintro ⟨seen, between, ⟨rfl, rfl⟩, h⟩
    split at h
    · next files hfiles =>
      cases h
      exact ⟨files, hfiles, rfl⟩
    · cases h
  · rintro ⟨files, hfiles, rfl⟩
    refine ⟨world, world, ⟨rfl, rfl⟩, ?_⟩
    rw [hfiles]
    rfl

theorem returns_mapError {f : ε → ε'} {job : Job σ ε α} :
    Returns (mapError f job) world a after ↔ Returns job world a after := by
  change (match job.run.run world with
    | (result, between) => (result.mapError f, between)) = (.ok a, after) ↔ _
  rcases hrun : job.run.run world with ⟨result, between⟩
  rw [Returns, hrun]
  cases result with
  | ok b =>
    constructor <;> intro h
    · cases h
      rfl
    · cases h
      rfl
  | error e =>
    constructor <;> intro h <;> cases h

theorem returns_asFailure {job : Job σ FileFault α} :
    Returns (asFailure job) world a after ↔ Returns job world a after :=
  returns_mapError

theorem returns_asTrouble {job : Job σ Failure α} :
    Returns (asTrouble job) world a after ↔ Returns job world a after :=
  returns_mapError

theorem returns_during {note : Note} {job : Job σ Failure α} :
    Returns (during note job) world a after ↔ Returns job world a after :=
  returns_mapError

theorem returns_duringFile {note : Note} {job : Job σ FileFault α} :
    Returns (duringFile note job) world a after ↔ Returns job world a after :=
  returns_mapError

theorem returns_observe {job : Job σ ε α} {result : Except ε α} :
    Returns (observe job : Job σ ε' (Except ε α)) world result after ↔
      job.run.run world = (result, after) := by
  change ((.ok (job.run.run world).1, (job.run.run world).2) : Except ε' _ × World σ) = _ ↔ _
  rw [Prod.mk.injEq, Except.ok.injEq, Prod.ext_iff]

theorem returns_settle {job : Job σ Trouble α} {result : Except Trouble α}
    (h : job.run.run world = (result, after))
    (hcalm : ∀ trouble, result = .error trouble → trouble.crash? = none) :
    Returns (settle job) world result after := by
  refine returns_bind.mpr ⟨result, after, returns_observe.mpr h, ?_⟩
  cases result with
  | ok a => exact returns_pure.mpr ⟨rfl, rfl⟩
  | error trouble =>
    dsimp only
    rw [hcalm trouble rfl, if_neg (by simp)]
    exact returns_pure.mpr ⟨rfl, rfl⟩

/-- A crash is not settled. -/
theorem run_settle_of_crash {job : Job σ Trouble α} {trouble : Trouble}
    (h : job.run.run world = (.error trouble, after)) (hcrash : trouble.crash? ≠ none) :
    (settle job).run.run world = (.error trouble, after) := by
  have hobserve : (observe job : Job σ Trouble (Except Trouble α)).run.run world =
      (.ok (.error trouble), after) := returns_observe.mpr h
  rw [settle, run_bind, hobserve]
  dsimp only
  rw [if_pos (Option.isSome_iff_ne_none.mpr hcrash)]
  rfl

end Ending

/-! ### What jobs keep -/

/-- Whenever the job ends with a result, it has kept the property of the world. -/
def Keeps (P : World σ → Prop) (job : Job σ ε α) : Prop :=
  ∀ ⦃world a after⦄, Returns job world a after → P world → P after

/-- Whenever the job ends with a result, the files are as they were. -/
def KeepsFiles (job : Job σ ε α) : Prop :=
  ∀ ⦃world a after⦄, Returns job world a after → after.files = world.files

/-- Whenever the job ends with a result, the file at the path is as it was. -/
def KeepsFile (path : Path) (job : Job σ ε α) : Prop :=
  ∀ text, Keeps (fun world => world.files.read path = .ok text) job

theorem KeepsFiles.keeps {P : FileTree → Prop} {job : Job σ ε α} (h : KeepsFiles job) :
    Keeps (fun world => P world.files) job := by
  intro world a after hjob hP
  rw [h hjob]
  exact hP

theorem KeepsFiles.keepsFile {job : Job σ ε α} (h : KeepsFiles job) (path : Path) :
    KeepsFile path job :=
  fun text => h.keeps (P := fun files => files.read path = .ok text)

section Keeping

variable {P : World σ → Prop}

theorem keeps_pure {a : α} : Keeps P (pure a : Job σ ε α) := by
  intro world b after h hP
  obtain ⟨rfl, rfl⟩ := returns_pure.mp h
  exact hP

theorem keeps_throw {e : ε} : Keeps P (throw e : Job σ ε α) :=
  fun _ _ _ h => absurd h not_returns_throw

theorem Keeps.bind {job : Job σ ε α} {next : α → Job σ ε β} (hjob : Keeps P job)
    (hnext : ∀ a, Keeps P (next a)) : Keeps P (job >>= next) := by
  intro world b after h hP
  obtain ⟨a, between, hfirst, hrest⟩ := returns_bind.mp h
  exact hnext a hrest (hjob hfirst hP)

theorem keeps_ofExcept {result : Except ε α} : Keeps P (ofExcept result : Job σ ε α) := by
  intro world a after h hP
  obtain ⟨-, rfl⟩ := returns_ofExcept.mp h
  exact hP

theorem keeps_query {f : FileTree → Except FileFault α} :
    Keeps P (query f : Job σ FileFault α) := by
  intro world a after h hP
  obtain ⟨-, rfl⟩ := returns_query.mp h
  exact hP

theorem keeps_change {f : FileTree → Except FileFault FileTree}
    (hf : ∀ world files, f world.files = .ok files → P world → P { world with files }) :
    Keeps P (change f : Job σ FileFault Unit) := by
  intro world u after h hP
  obtain ⟨files, hfiles, rfl⟩ := returns_change.mp h
  exact hf world files hfiles hP

theorem Keeps.mapError {f : ε → ε'} {job : Job σ ε α} (hjob : Keeps P job) :
    Keeps P (mapError f job) :=
  fun _ _ _ h hP => hjob (returns_mapError.mp h) hP

/-- However the job ends, it has kept the property of the world. -/
def Maintains (P : World σ → Prop) (job : Job σ ε α) : Prop :=
  ∀ world, P world → P (job.run.run world).2

theorem Maintains.keeps {job : Job σ ε α} (h : Maintains P job) : Keeps P job := by
  intro world a after hjob hP
  have hafter := h world hP
  rwa [hjob] at hafter

theorem maintains_pure {a : α} : Maintains P (pure a : Job σ ε α) :=
  fun _ hP => hP

theorem maintains_throw {e : ε} : Maintains P (throw e : Job σ ε α) :=
  fun _ hP => hP

theorem maintains_ofExcept {result : Except ε α} : Maintains P (ofExcept result : Job σ ε α) :=
  fun _ hP => hP

theorem maintains_query {f : FileTree → Except FileFault α} :
    Maintains P (query f : Job σ FileFault α) :=
  fun _ hP => hP

theorem Maintains.bind {job : Job σ ε α} {next : α → Job σ ε β} (hjob : Maintains P job)
    (hnext : ∀ a, Maintains P (next a)) : Maintains P (job >>= next) := by
  intro world hP
  have hbetween := hjob world hP
  rw [run_bind]
  rcases hrun : job.run.run world with ⟨result, between⟩
  rw [hrun] at hbetween
  cases result with
  | ok a => exact hnext a between hbetween
  | error e => exact hbetween

theorem maintains_change {f : FileTree → Except FileFault FileTree}
    (hf : ∀ world files, f world.files = .ok files → P world → P { world with files }) :
    Maintains P (change f : Job σ FileFault Unit) := by
  intro world hP
  rw [run_change]
  cases hfiles : f world.files with
  | ok files => exact hf world files hfiles hP
  | error fault => exact hP

theorem Maintains.mapError {f : ε → ε'} {job : Job σ ε α} (hjob : Maintains P job) :
    Maintains P (mapError f job) :=
  fun world hP => hjob world hP

end Keeping

end StrongCyclic.Job
