import StrongCyclic.Proofs.Encoding.EffectMeaning
import StrongCyclic.Proofs.Synthesis.Calls

/-!
What the solver has printed before a negative outcome. A problem is called unsolvable if the output of
the weak plan call gives no plan, and the sizes count as exhausted if no output of the search states an
answer. An output that states that there is no answer is such an output, but it is not the only one:
an output without any status, as of a solver that was interrupted, gives no plan and states no answer
either. So a negative outcome is backed by the solver exactly if all these outputs state a status, and
the weak plan call has not ended with an answer without a plan.
-/

namespace StrongCyclic

open Fallible Job

variable {σ : Type}

/-- The output states that there is no answer. -/
def Refutes (text : String) : Prop :=
  ∃ out, readOutput text = .ok out ∧ out.status = .unsatisfiable

/-- The output states whether there is an answer. -/
def Decides (text : String) : Prop :=
  ∃ out, readOutput text = .ok out ∧ out.status ≠ .unknown

theorem refutes_iff {text : String} : Refutes text ↔ Decides text ∧ ¬ Solves text := by
  simp only [Refutes, Decides, Solves, SolverOutput.isSatisfiable, decide_eq_true_eq]
  cases hread : readOutput text with
  | error failure => simp
  | ok out => cases hstatus : out.status <;> simp [hstatus]

namespace Synthesis

open Search

/-! ### The weak plan -/

/-- What a reply is taken for, once it has been written down. -/
def estimateOf : SolverRun → Except Failure BackboneEstimate
  | .timedOut _ => .ok .timedOut
  | .finished text => do
    let out ← readOutput text
    let backbone ← Backbone.ofOutput out
    return BackboneEstimate.ofBackbone backbone

theorem estimateOf_unsolvable_iff {run : SolverRun} :
    estimateOf run = .ok .unsolvable ↔ ∃ text, run = .finished text ∧ NoPlan text := by
  cases run with
  | timedOut text => simp [estimateOf]
  | finished text =>
    simp only [estimateOf, bind_eq_ok, pure_eq_ok, BackboneEstimate.ofBackbone, NoPlan,
      SolverRun.finished.injEq, exists_eq_left']
    refine exists_congr fun out => and_congr_right fun _ => ?_
    constructor
    · rintro ⟨⟨steps⟩, hplan, h⟩
      split at h
      · next hempty =>
        obtain rfl : steps = [] := hempty
        exact hplan
      · cases h
    · exact fun hplan => ⟨_, hplan, rfl⟩

theorem run_readEstimate (file : Path) (run : SolverRun) (world : World σ) :
    (readEstimate file run).run.run world =
      match world.files.write file run.stdout with
      | .ok files => (estimateOf run, { world with files })
      | .error fault => (.error (.file fault), world) := by
  rw [readEstimate, run_bind, asFailure, run_mapError, run_change]
  cases world.files.write file run.stdout with
  | error fault => rfl
  | ok files =>
    cases run with
    | timedOut text => rfl
    | finished text =>
      rw [estimateOf]
      dsimp only [SolverRun.stdout]
      cases readOutput text with
      | error failure => rfl
      | ok out =>
        change (do
          let backbone ← Job.ofExcept (Backbone.ofOutput out)
          return BackboneEstimate.ofBackbone backbone :
            Job σ Failure BackboneEstimate).run.run { world with files } = _
        rw [ok_bind]
        cases Backbone.ofOutput out <;> rfl

/-- The estimate is that there is no controller exactly if the output gives no plan. -/
theorem traced_estimateBackbone (solver : Solver σ) (call : SolverCall) (file : Path)
    (budget : Option Duration) (world : World σ) :
    Traced (estimateBackbone solver.recorded call file budget)
      (estimateBackbone solver call file budget) world fun result _ trace =>
        ∃ reply, trace = [⟨call, budget, world.clock, reply⟩] ∧
          (result = .ok .unsolvable ↔ (∃ text, reply = .ok (.finished text) ∧ NoPlan text) ∧
            ∀ fault, result ≠ .error (.file fault)) := by
  refine .bind (traced_recorded solver call budget) ?_ ?_
  · rintro failure after _ - rfl
    exact ⟨_, rfl, by simp⟩
  rintro run after _ - rfl
  change Traced (readEstimate file run) (readEstimate file run) after _
  rw [← withRecord_readEstimate]
  refine traced_withRecord ⟨_, rfl, ?_⟩
  rw [run_readEstimate]
  cases after.files.write file run.stdout with
  | error fault => simp
  | ok files =>
    simp only [estimateOf_unsolvable_iff, Except.ok.injEq]
    refine (and_iff_left_of_imp fun hnone fault => ?_).symm
    rw [estimateOf_unsolvable_iff.mpr hnone]
    simp

/-! ### The run -/

variable {s : Settings} {solver : Solver σ} {providers : List (ConstraintProvider σ)}
  {directory : Path} {task : Task} {world after : World σ} {weak undo : Option Exchange}
  {made : List Exchange} {findings : Findings}

theorem SynthesisRun.unsolvable
    (h : SynthesisRun s solver providers directory task world (.ok findings) after weak undo made)
    (hunsolvable : findings.outcome = .unsolvable) :
    undo = none ∧ made = [] ∧
      ∃ x text, weak = some x ∧ x.reply = .ok (.finished text) ∧ NoPlan text := by
  cases h with
  | settled _ hhints =>
    obtain rfl := hunsolvable
    cases hhints with
    | settled _ _ _ _ hfound =>
      cases hfound with
      | unsolvable hnone => exact ⟨rfl, rfl, _, _, rfl, rfl, hnone⟩
  | searched _ _ hsearch =>
    cases hsearch with
    | done _ hsizes => exact absurd hunsolvable hsizes.outcome_ne.2

theorem SynthesisRun.exhausted {max : Nat}
    (h : SynthesisRun s solver providers directory task world (.ok findings) after weak undo made)
    (hexhausted : findings.outcome = .exhausted max) :
    ∀ x ∈ made, ∃ text, x.reply = .ok (.finished text) ∧ Unsettled text := by
  cases h with
  | settled => simp
  | searched _ _ hsearch =>
    cases hsearch with
    | done _ hsizes =>
      obtain rfl := hexhausted
      exact hsizes.unsettled_of_exhausted.2

/-- What the solver has printed before a negative outcome, and when that is a refutation. -/
theorem negativeOutcome_outputs (s : Settings) (solver : Solver σ)
    (providers : List (ConstraintProvider σ)) (world : World σ) :
    (∀ call file budget, Traced (estimateBackbone solver.recorded call file budget)
      (estimateBackbone solver call file budget) world fun result _ trace =>
        ∃ reply, trace = [⟨call, budget, world.clock, reply⟩] ∧
          (result = .ok .unsolvable ↔ (∃ text, reply = .ok (.finished text) ∧ NoPlan text) ∧
            ∀ fault, result ≠ .error (.file fault))) ∧
    Traced (solve s solver.recorded (providers.map ConstraintProvider.withRecord))
      (solve s solver providers) world fun result after trace =>
        ∃ weak undo made, trace = weak.toList ++ undo.toList ++ made ∧
          SolveRun s solver providers world result after weak undo made ∧
          ∀ report, result = .ok report →
            (report.outcome = .unsolvable → undo = none ∧ made = [] ∧ ∃ x text, weak = some x ∧
              x.reply = .ok (.finished text) ∧ NoPlan text ∧
              (Refutes text ↔ Decides text ∧ ¬ Solves text)) ∧
            ∀ max, report.outcome = .exhausted max → ∀ x ∈ made, ∃ text,
              x.reply = .ok (.finished text) ∧ Unsettled text ∧ (Refutes text ↔ Decides text) := by
  refine ⟨fun call file budget => traced_estimateBackbone solver call file budget world,
    (traced_solve s solver providers world).imp ?_⟩
  rintro result after _ ⟨weak, undo, made, rfl, hrun⟩
  refine ⟨weak, undo, made, rfl, hrun, ?_⟩
  rintro report heq
  cases hrun with
  | unopened => cases heq
  | trivial =>
    obtain rfl := Except.ok.inj heq
    simp [reportOn]
  | synthesized hopen hgoal hrun =>
    obtain ⟨findings, rfl, rfl⟩ := map_eq_ok.mp heq
    constructor
    · intro hunsolvable
      obtain ⟨hundo, hmade, x, text, hweak, hreply, hnone⟩ := hrun.unsolvable hunsolvable
      exact ⟨hundo, hmade, x, text, hweak, hreply, hnone, refutes_iff⟩
    · intro max hexhausted x hx
      obtain ⟨text, hreply, hunsettled⟩ := hrun.exhausted hexhausted x hx
      refine ⟨text, hreply, hunsettled, refutes_iff.trans ?_⟩
      exact and_iff_left (not_solves_of_unsettled hunsettled)

/-! ### A solver that is interrupted -/

/-- What a solver prints that is interrupted before it has found out anything. -/
def interruptedReply : String :=
  "Solving...\nUNKNOWN\n\nINTERRUPTED : 1\n"

theorem not_refutes_interruptedReply : ¬ Refutes interruptedReply := by
  rintro ⟨out, hread, hstatus⟩
  have hunknown : (readOutput interruptedReply).toOption.map SolverOutput.status = some .unknown := by
    decide +kernel
  rw [hread] at hunknown
  exact absurd (Option.some.inj hunknown) (by simp [hstatus])

/-- The task of the door that sticks, which can be opened, and a program that searches for weak plans;
the solver is interrupted at its first call. -/
def interruptedWorld : World Solver.Script where
  files :=
    { entries := [(["door"], .directory), (["door", "weak.lp"], .file ""),
        (["door", "task.sas"], .file Encoding.stickingDoorFile)]
      workingDirectory := ["door"] }
  solver := ⟨[.run (.finished interruptedReply)], []⟩
  clock := ⟨0⟩

/-- The settings to ask for a weak plan first. -/
def interruptedSettings : Settings where
  taskFile := ⟨"task.sas"⟩
  backbone := { enabled := true, weakPlanProgram := ⟨"weak.lp"⟩ }
  output := { directory := ⟨"out"⟩ }

/-- The run with a record of its calls. -/
def interruptedRun : Except Trouble SolveReport × World (Recorded Solver.Script) :=
  (solve interruptedSettings Solver.scripted.recorded
    (List.map ConstraintProvider.withRecord [])).run.run (interruptedWorld.withRecord [])

theorem interruptedRun_eq :
    (interruptedRun.1.toOption.map SolveReport.outcome,
      interruptedRun.2.solver.exchanges.map Exchange.reply) =
    (some .unsolvable, [.ok (.finished interruptedReply)]) := by
  decide +kernel

/-- A problem is called unsolvable though no output states that there is no answer. -/
theorem not_forall_negativeOutcome_refuted :
    ¬ ∀ (σ : Type) (s : Settings) (solver : Solver σ) (providers : List (ConstraintProvider σ))
        (world : World σ),
        Traced (solve s solver.recorded (providers.map ConstraintProvider.withRecord))
          (solve s solver providers) world fun result _ trace => ∀ report, result = .ok report →
            (report.outcome = .unsolvable → ∃ x text, trace = [x] ∧ x.reply = .ok (.finished text) ∧
              Refutes text) ∧
            ∀ max, report.outcome = .exhausted max → ∀ x ∈ trace, x.call.args.head? = some "-c" →
              ∃ text, x.reply = .ok (.finished text) ∧ Refutes text := by
  intro hall
  have hbacked := (hall _ interruptedSettings Solver.scripted [] interruptedWorld).record
  obtain ⟨houtcome, hreplies⟩ := Prod.mk.inj interruptedRun_eq
  obtain ⟨report, hreport, houtcome⟩ := Option.map_eq_some_iff.mp houtcome
  obtain ⟨x, text, htrace, hreply, hrefutes⟩ :=
    (hbacked report (toOption_eq_some.mp hreport)).1 houtcome
  rw [interruptedRun, htrace, List.map_singleton, hreply] at hreplies
  obtain rfl : text = interruptedReply := by simpa using hreplies
  exact not_refutes_interruptedReply hrefutes

end Synthesis

end StrongCyclic
