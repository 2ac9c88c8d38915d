import StrongCyclic.Proofs.Run.Returns
import StrongCyclic.Solver.Call

/-!
Records of the calls of a solver. A solver that keeps a record answers as before and notes each call
with what came of it; a job that makes no calls of its own leaves the record alone. `Traced` compares
a job that works with a record to the same job without: both end alike, the record has grown by a
trace, and a property of the ending and the trace holds. It is put together bind by bind.
-/

namespace StrongCyclic

variable {σ ε ε' α β : Type}

/-- A call of a solver and what came of it. -/
structure Exchange where
  call : SolverCall
  budget : Option Duration
  /-- The time of the call. -/
  time : Duration
  reply : Except Failure SolverRun

/-- The state of a solver with the record of its calls so far. -/
structure Recorded (σ : Type) where
  state : σ
  exchanges : List Exchange

namespace World

/-- The world with a record. -/
def withRecord (world : World σ) (exchanges : List Exchange) : World (Recorded σ) :=
  ⟨world.files, ⟨world.solver, exchanges⟩, world.clock⟩

/-- The world without its record. -/
def withoutRecord (world : World (Recorded σ)) : World σ :=
  ⟨world.files, world.solver.state, world.clock⟩

@[simp]
theorem withoutRecord_withRecord (world : World σ) (exchanges : List Exchange) :
    (world.withRecord exchanges).withoutRecord = world :=
  rfl

theorem files_withoutRecord (world : World (Recorded σ)) : world.withoutRecord.files = world.files :=
  rfl

theorem withRecord_inj {world world' : World σ} {exchanges exchanges' : List Exchange}
    (h : world.withRecord exchanges = world'.withRecord exchanges') :
    world = world' ∧ exchanges = exchanges' := by
  refine ⟨?_, congrArg (·.solver.exchanges) h⟩
  simpa using congrArg withoutRecord h

end World

/-- The job in a world with a record, which it leaves alone. -/
def Job.withRecord (job : Job σ ε α) : Job (Recorded σ) ε α :=
  ExceptT.mk fun world =>
    let (result, after) := job.run.run world.withoutRecord
    (result, after.withRecord world.solver.exchanges)

/-- The solver that keeps a record of its calls. -/
def Solver.recorded (solver : Solver σ) : Solver (Recorded σ) := fun call budget =>
  ExceptT.mk fun world =>
    let (reply, after) := (solver call budget).run.run world.withoutRecord
    (reply, after.withRecord (world.solver.exchanges ++ [⟨call, budget, world.clock, reply⟩]))

namespace Job

/-! ### Jobs that make no calls -/

section Silent

@[simp]
theorem withRecord_pure (a : α) : (pure a : Job σ ε α).withRecord = pure a :=
  rfl

@[simp]
theorem withRecord_throw (e : ε) : (throw e : Job σ ε α).withRecord = throw e :=
  rfl

@[simp]
theorem withRecord_bind (job : Job σ ε α) (next : α → Job σ ε β) :
    (job >>= next).withRecord = job.withRecord >>= fun a => (next a).withRecord := by
  funext world
  simp only [withRecord, bind, ExceptT.bind, ExceptT.mk, StateT.bind, ExceptT.run, StateT.run]
  rcases job world.withoutRecord with ⟨result, after⟩
  cases result <;> rfl

@[simp]
theorem withRecord_mapError (f : ε → ε') (job : Job σ ε α) :
    (mapError f job).withRecord = mapError f job.withRecord :=
  rfl

@[simp]
theorem withRecord_asFailure (job : Job σ FileFault α) :
    (asFailure job).withRecord = asFailure job.withRecord :=
  rfl

@[simp]
theorem withRecord_asTrouble (job : Job σ Failure α) :
    (asTrouble job).withRecord = asTrouble job.withRecord :=
  rfl

@[simp]
theorem withRecord_during (note : Note) (job : Job σ Failure α) :
    (during note job).withRecord = during note job.withRecord :=
  rfl

@[simp]
theorem withRecord_duringFile (note : Note) (job : Job σ FileFault α) :
    (duringFile note job).withRecord = duringFile note job.withRecord :=
  rfl

@[simp]
theorem withRecord_map (f : α → β) (job : Job σ ε α) :
    (f <$> job).withRecord = f <$> job.withRecord := by
  simp only [map_eq_pure_bind, withRecord_bind, withRecord_pure]

@[simp]
theorem withRecord_ofExcept (result : Except ε α) :
    (ofExcept result : Job σ ε α).withRecord = ofExcept result :=
  rfl

@[simp]
theorem withRecord_query (f : FileTree → Except FileFault α) :
    (query f : Job σ FileFault α).withRecord = query f :=
  rfl

@[simp]
theorem withRecord_inspect (f : FileTree → α) :
    (inspect f : Job σ ε α).withRecord = inspect f :=
  rfl

@[simp]
theorem withRecord_change (f : FileTree → Except FileFault FileTree) :
    (change f : Job σ FileFault Unit).withRecord = change f := by
  funext world
  change (let (result, after) := (change f).run.run world.withoutRecord
    (result, after.withRecord world.solver.exchanges)) = (change f).run.run world
  rw [run_change, run_change, World.files_withoutRecord]
  cases f world.files <;> rfl

/-- A look at the world does not see the record. -/
@[simp]
theorem withRecord_get_bind (next : World σ → Job σ ε α) :
    ((get : Job σ ε (World σ)) >>= next).withRecord =
      (get : Job (Recorded σ) ε (World (Recorded σ))) >>=
        fun world => (next world.withoutRecord).withRecord :=
  rfl

end Silent

/-! ### Traces -/

/-- The job, started in `world`, ends with the error `e` in the world `after`. -/
def Fails (job : Job σ ε α) (world : World σ) (e : ε) (after : World σ) : Prop :=
  job.run.run world = (.error e, after)

theorem fails_mapError {f : ε → ε'} {job : Job σ ε α} {world after : World σ} {e : ε'} :
    Fails (mapError f job) world e after ↔ ∃ cause, Fails job world cause after ∧ f cause = e := by
  rw [Fails, run_mapError]
  constructor
  · intro h
    rcases hrun : job.run.run world with ⟨result, between⟩
    rw [hrun] at h
    cases result with
    | error cause =>
      cases h
      exact ⟨cause, hrun, rfl⟩
    | ok a => cases h
  · rintro ⟨cause, hfails, rfl⟩
    rw [Fails] at hfails
    rw [hfails]
    rfl

/-- The job with a record ends as the job without, and `P` holds of the ending and of the trace that
has been added to the record. -/
def Traced (recorded : Job (Recorded σ) ε α) (job : Job σ ε α) (world : World σ)
    (P : Except ε α → World σ → List Exchange → Prop) : Prop :=
  ∃ trace, (∀ exchanges, recorded.run.run (world.withRecord exchanges) =
      ((job.run.run world).1, (job.run.run world).2.withRecord (exchanges ++ trace))) ∧
    P (job.run.run world).1 (job.run.run world).2 trace

section Tracing

variable {recorded : Job (Recorded σ) ε α} {job : Job σ ε α} {world : World σ}
  {P Q : Except ε α → World σ → List Exchange → Prop}

theorem Traced.imp (h : Traced recorded job world P)
    (hPQ : ∀ result after trace, P result after trace → Q result after trace) :
    Traced recorded job world Q := by
  obtain ⟨trace, hrun, hP⟩ := h
  exact ⟨trace, hrun, hPQ _ _ _ hP⟩

/-- The trace of a job is determined. -/
theorem Traced.and (hP : Traced recorded job world P) (hQ : Traced recorded job world Q) :
    Traced recorded job world fun result after trace =>
      P result after trace ∧ Q result after trace := by
  obtain ⟨trace, hrun, hP⟩ := hP
  obtain ⟨trace', hrun', hQ⟩ := hQ
  have heq := (Prod.mk.inj ((hrun []).symm.trans (hrun' []))).2
  obtain rfl : trace = trace' := (World.withRecord_inj heq).2
  exact ⟨trace, hrun, hP, hQ⟩

theorem Traced.of_returns {a : α} {after : World σ} (h : Traced recorded job world P)
    (hjob : Returns job world a after) : ∃ trace, P (.ok a) after trace := by
  obtain ⟨trace, -, hP⟩ := h
  rw [Returns] at hjob
  rw [hjob] at hP
  exact ⟨trace, hP⟩

/-- The trace of a job is what it leaves in an empty record. -/
theorem Traced.record (h : Traced recorded job world P) :
    P (recorded.run.run (world.withRecord [])).1
      (recorded.run.run (world.withRecord [])).2.withoutRecord
      (recorded.run.run (world.withRecord [])).2.solver.exchanges := by
  obtain ⟨trace, hrun, hP⟩ := h
  rw [hrun []]
  exact hP

theorem traced_recorded (solver : Solver σ) (call : SolverCall) (budget : Option Duration) :
    Traced (solver.recorded call budget) (solver call budget) world
      fun reply _ trace => trace = [⟨call, budget, world.clock, reply⟩] :=
  ⟨_, fun _ => rfl, rfl⟩

theorem traced_withRecord (hP : P (job.run.run world).1 (job.run.run world).2 []) :
    Traced job.withRecord job world P :=
  ⟨[], fun exchanges => by rw [List.append_nil]; rfl, hP⟩

theorem Traced.mapError {f : ε → ε'} {R : Except ε' α → World σ → List Exchange → Prop}
    (h : Traced recorded job world fun result after trace => R (result.mapError f) after trace) :
    Traced (Job.mapError f recorded) (Job.mapError f job) world R := by
  obtain ⟨trace, hrun, hR⟩ := h
  refine ⟨trace, fun exchanges => ?_, hR⟩
  rw [run_mapError, run_mapError, hrun]

/-- Jobs follow each other: the second one starts where the first one ends, and its trace comes after
that of the first one. -/
theorem Traced.bind {next' : α → Job (Recorded σ) ε β} {next : α → Job σ ε β}
    {R : Except ε β → World σ → List Exchange → Prop} (h : Traced recorded job world P)
    (herror : ∀ e between trace, Fails job world e between → P (.error e) between trace →
      R (.error e) between trace)
    (hok : ∀ a between trace, Returns job world a between → P (.ok a) between trace →
      Traced (next' a) (next a) between fun result after more => R result after (trace ++ more)) :
    Traced (recorded >>= next') (job >>= next) world R := by
  obtain ⟨trace, hrun, hP⟩ := h
  rcases hjob : job.run.run world with ⟨result, between⟩
  rw [hjob] at hP
  simp only [hjob] at hrun
  cases result with
  | error e =>
    refine ⟨trace, fun exchanges => ?_, ?_⟩
    · rw [run_bind, run_bind, hrun, hjob]
    · rw [run_bind, hjob]
      exact herror e between trace hjob hP
  | ok a =>
    obtain ⟨more, hnext, hR⟩ := hok a between trace hjob hP
    refine ⟨trace ++ more, fun exchanges => ?_, ?_⟩
    · rw [run_bind, run_bind, hrun, hjob]
      simp only [hnext, List.append_assoc]
    · rw [run_bind, hjob]
      exact hR

/-- A job that makes no calls comes first. -/
theorem Traced.bind_silent {next' : α → Job (Recorded σ) ε β} {next : α → Job σ ε β}
    {R : Except ε β → World σ → List Exchange → Prop} (hsilent : job.withRecord = recorded)
    (herror : ∀ e between, Fails job world e between → R (.error e) between [])
    (hok : ∀ a between, Returns job world a between → Traced (next' a) (next a) between R) :
    Traced (recorded >>= next') (job >>= next) world R := by
  subst hsilent
  have h : Traced job.withRecord job world fun _ _ trace => trace = [] := traced_withRecord rfl
  refine h.bind ?_ ?_
  · rintro e between _ hjob rfl
    exact herror e between hjob
  · rintro a between _ hjob rfl
    exact hok a between hjob

theorem traced_silent (hsilent : job.withRecord = recorded)
    (herror : ∀ e after, Fails job world e after → P (.error e) after [])
    (hok : ∀ a after, Returns job world a after → P (.ok a) after []) :
    Traced recorded job world P := by
  subst hsilent
  refine traced_withRecord ?_
  rcases hrun : job.run.run world with ⟨result, after⟩
  cases result with
  | error e => exact herror e after hrun
  | ok a => exact hok a after hrun

/-- A look at the world comes first, of which no use is made but of what the record leaves alone. -/
theorem Traced.bind_get {next' : World (Recorded σ) → Job (Recorded σ) ε α}
    {next : World σ → Job σ ε α} {R : Except ε α → World σ → List Exchange → Prop}
    (hsame : ∀ exchanges, next' (world.withRecord exchanges) = next' (world.withRecord []))
    (h : Traced (next' (world.withRecord [])) (next world) world R) :
    Traced (get >>= next') (get >>= next) world R := by
  obtain ⟨trace, hrun, hR⟩ := h
  refine ⟨trace, fun exchanges => ?_, hR⟩
  change (next' (world.withRecord exchanges)).run.run (world.withRecord exchanges) = _
  rw [hsame, hrun]
  rfl

theorem traced_pure {a : α} {R : Except ε α → World σ → List Exchange → Prop}
    (h : R (.ok a) world []) : Traced (pure a : Job (Recorded σ) ε α) (pure a) world R := by
  rw [← withRecord_pure]
  exact traced_withRecord h

theorem traced_throw {e : ε} {R : Except ε α → World σ → List Exchange → Prop}
    (h : R (.error e) world []) : Traced (throw e : Job (Recorded σ) ε α) (throw e) world R := by
  rw [← withRecord_throw]
  exact traced_withRecord h

/-- A result that is already there comes first. -/
theorem Traced.bind_ofExcept {result : Except ε α} {next' : α → Job (Recorded σ) ε β}
    {next : α → Job σ ε β} {R : Except ε β → World σ → List Exchange → Prop}
    (herror : ∀ e, result = .error e → R (.error e) world [])
    (hok : ∀ a, result = .ok a → Traced (next' a) (next a) world R) :
    Traced (ofExcept result >>= next') (ofExcept result >>= next) world R := by
  refine .bind_silent (withRecord_ofExcept result) (fun e between h => ?_) fun a between h => ?_
  · obtain ⟨rfl, rfl⟩ : result = .error e ∧ world = between := Prod.mk.inj h
    exact herror e rfl
  · obtain ⟨rfl, rfl⟩ := returns_ofExcept.mp h
    exact hok a rfl

/-- A change of the files comes first. -/
theorem Traced.bind_change {f : FileTree → Except FileFault FileTree} {g : FileFault → ε}
    {next' : Unit → Job (Recorded σ) ε α} {next : Unit → Job σ ε α}
    {R : Except ε α → World σ → List Exchange → Prop}
    (herror : ∀ fault, f world.files = .error fault → R (.error (g fault)) world [])
    (hok : ∀ files, f world.files = .ok files →
      Traced (next' ()) (next ()) { world with files } R) :
    Traced (Job.mapError g (change f) >>= next') (Job.mapError g (change f) >>= next) world R := by
  refine .bind_silent (by simp) (fun e between h => ?_) fun u between h => ?_
  · obtain ⟨fault, hfails, rfl⟩ := fails_mapError.mp h
    rw [Fails, run_change] at hfails
    cases hf : f world.files with
    | ok files =>
      rw [hf] at hfails
      cases hfails
    | error fault =>
      rw [hf] at hfails
      cases hfails
      exact herror _ hf
  · obtain ⟨files, hf, rfl⟩ := returns_change.mp (returns_mapError.mp h)
    exact hok files hf

end Tracing

end Job

/-! ### Calls that fail -/

/-- A call that fails is the last one, and its failure is the cause of the error. -/
def FailsLast {ε α : Type} (cause? : ε → Option Failure) (result : Except ε α)
    (trace : List Exchange) : Prop :=
  ∀ x ∈ trace, ∀ failure, x.reply = .error failure →
    trace.getLast? = some x ∧ ∃ e, result = .error e ∧ cause? e = some failure

section Failing

variable {ε ε' α β : Type} {cause? : ε → Option Failure} {result : Except ε α}
  {trace more : List Exchange}

theorem failsLast_nil : FailsLast cause? result [] :=
  fun _ h => absurd h List.not_mem_nil

theorem failsLast_replied {x : Exchange} {run : SolverRun} (h : x.reply = .ok run) :
    FailsLast cause? result [x] := by
  intro y hy failure hfailed
  obtain rfl := List.mem_singleton.mp hy
  exact nomatch h.symm.trans hfailed

theorem failsLast_failed {x : Exchange} {e : ε}
    (h : ∀ failure, x.reply = .error failure → cause? e = some failure) :
    FailsLast cause? (.error e : Except ε α) [x] := by
  intro y hy failure hfailed
  obtain rfl := List.mem_singleton.mp hy
  exact ⟨rfl, e, rfl, h failure hfailed⟩

/-- After a part of a run that ends with a result the calls that fail are those of the rest. -/
theorem FailsLast.append {b : β} (h : FailsLast cause? (.ok b : Except ε β) trace)
    (hmore : FailsLast cause? result more) : FailsLast cause? result (trace ++ more) := by
  intro x hx failure hfailed
  obtain hx | hx := List.mem_append.mp hx
  · obtain ⟨-, e, heq, -⟩ := h x hx failure hfailed
    cases heq
  · obtain ⟨hlast, herror⟩ := hmore x hx failure hfailed
    exact ⟨by rw [List.getLast?_append, hlast, Option.some_or], herror⟩

theorem FailsLast.of_error {e : ε} {causeOf? : ε' → Option Failure} {e' : ε'}
    (h : FailsLast cause? (.error e : Except ε α) trace) (hcause : cause? e = causeOf? e') :
    FailsLast causeOf? (.error e' : Except ε' β) trace := by
  intro x hx failure hfailed
  obtain ⟨hlast, _, ⟨⟩, hfailure⟩ := h x hx failure hfailed
  exact ⟨hlast, e', rfl, hcause ▸ hfailure⟩

/-- No call has failed before a result. -/
theorem FailsLast.of_ok {a : α} (h : FailsLast cause? (.ok a : Except ε α) trace)
    {causeOf? : ε' → Option Failure} {result : Except ε' β} : FailsLast causeOf? result trace := by
  intro x hx failure hfailed
  obtain ⟨-, e, heq, -⟩ := h x hx failure hfailed
  cases heq

theorem FailsLast.map (h : FailsLast cause? result trace) (f : α → β) :
    FailsLast cause? (result.map f) trace := by
  cases result with
  | ok a => exact h.of_ok
  | error e => exact h.of_error rfl

end Failing

end StrongCyclic
