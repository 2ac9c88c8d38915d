import StrongCyclic.Proofs.Run.Directory

/-!
The check of a run directory. Of an output that states an answer, `inMemory?` makes the check together
with the text of the planning task. Checking writes files but keeps the attempts and the planning task.
-/

namespace StrongCyclic

/-- The check of an output in memory: the controller is built from the last answer and verified
against the planning task. -/
def RunCheck.inMemory? (directory : Path) (taskText output : String) : Option RunCheck := do
  let task ← (Sas.parse taskText).toOption
  let out ← (SolverOutput.parse output).toOption
  let answer ← out.lastAnswer?
  let c ← (Controller.ofAnswer answer task.vars.length).toOption
  let v ← (Verification.verify c task).toOption
  return RunCheck.ofVerdict directory c v

theorem RunCheck.inMemory?_eq_some_iff {directory : Path} {taskText output : String}
    {check : RunCheck} :
    RunCheck.inMemory? directory taskText output = some check ↔
      ∃ task out answer c v, Sas.parse taskText = .ok task ∧
        SolverOutput.parse output = .ok out ∧ out.lastAnswer? = some answer ∧
        Controller.ofAnswer answer task.vars.length = .ok c ∧
        Verification.verify c task = .ok v ∧ RunCheck.ofVerdict directory c v = check := by
  simp only [RunCheck.inMemory?, Option.bind_eq_bind, Option.bind_eq_some_iff,
    Fallible.toOption_eq_some, Option.pure_def, Option.some.injEq]
  constructor
  · rintro ⟨task, htask, out, hout, answer, hanswer, c, hc, v, hv, hcheck⟩
    exact ⟨task, out, answer, c, v, htask, hout, hanswer, hc, hv, hcheck⟩
  · rintro ⟨task, out, answer, c, v, htask, hout, hanswer, hc, hv, hcheck⟩
    exact ⟨task, htask, out, hout, answer, hanswer, c, hc, v, hv, hcheck⟩

/-- The output can be read but does not state that there is an answer. -/
def Unsettled (output : String) : Prop :=
  ∃ out, readOutput output = .ok out ∧ out.isSatisfiable = false

/-- The output states that there is an answer. -/
def Solves (output : String) : Prop :=
  ∃ out, readOutput output = .ok out ∧ out.isSatisfiable = true

theorem not_solves_of_unsettled {text : String} (h : Unsettled text) : ¬ Solves text := by
  rintro ⟨out, hread, hsat⟩
  obtain ⟨out', hread', hunsat⟩ := h
  obtain rfl := Except.ok.inj (hread.symm.trans hread')
  exact absurd hsat (by simp [hunsat])

namespace RunDirectory

open Fallible FileTree Job Place

variable {σ : Type} {directory : Place} {world after : World σ}

theorem settledAnswer_eq_ok {file : Path} {output : String} {answer : Answer}
    (h : settledAnswer file output = .ok answer) :
    ∃ out, readOutput output = .ok out ∧ out.lastAnswer? = some answer ∧
      out.isSatisfiable = true := by
  obtain ⟨out, hread, h⟩ := bind_eq_ok.mp h
  split at h
  · next last hlast =>
    split at h
    · next hsat =>
      cases h
      exact ⟨out, mapError_eq_ok.mp hread, hlast, hsat⟩
    · cases h
  · cases h

theorem loadTask_returns {path : Path} {task : Task}
    (h : Returns (loadTask path) world task after) :
    (∃ text, world.files.read path = .ok text ∧ Sas.parse text = .ok task) ∧ world = after := by
  obtain ⟨text, between, hquery, hparse⟩ := returns_bind.mp h
  obtain ⟨hread, rfl⟩ := returns_query.mp (returns_duringFile.mp hquery)
  obtain ⟨htask, rfl⟩ := returns_ofExcept.mp (returns_during.mp hparse)
  exact ⟨⟨text, hread, mapError_eq_ok.mp htask⟩, rfl⟩

/-! ### What checking keeps -/

section Keeping

variable {aside : String → Prop} {K : World σ → Prop}

theorem keeps_loadTask (path : Path) : Keeps K (loadTask path) := by
  intro world task after h hK
  obtain ⟨-, rfl⟩ := loadTask_returns h
  exact hK

theorem keeps_lastOutput (path : Path) : Keeps K (lastOutput path) := by
  refine .bind keeps_query.mapError fun names => ?_
  split
  · exact keeps_pure
  · exact keeps_throw

theorem keeps_writeController (hK : StableUnder aside directory K) (hnames : HasRunNames aside)
    (hplace : Proper directory) (c : Controller) (vars : List Variable) :
    Keeps K (writeController (pathOf directory) c vars) :=
  .bind (keeps_write hK hplace (by decide) hnames.controllerText _).mapError fun _ =>
    (keeps_write hK hplace (by decide) hnames.controllerGraph _).mapError

theorem keeps_rebuild (hK : StableUnder aside directory K) (hnames : HasRunNames aside)
    (hplace : Proper directory) : Keeps K (rebuild (pathOf directory)) := by
  refine .bind (keeps_lastOutput _) fun file => .bind keeps_query.mapError fun output => ?_
  split
  · exact keeps_pure
  · refine .bind keeps_ofExcept fun answer => .bind (keeps_loadTask _) fun task => ?_
    refine .bind keeps_ofExcept.mapError fun c => ?_
    exact .bind (keeps_writeController hK hnames hplace c task.vars) fun _ => keeps_pure

theorem keeps_check (hK : StableUnder aside directory K) (hnames : HasRunNames aside)
    (hplace : Proper directory) : Keeps K (check (pathOf directory)) := by
  have hrecord (result : RunCheck) : Keeps K (do
      Job.duringFile (.writing ((pathOf directory).join FileNames.verification))
        (Job.change (·.write ((pathOf directory).join FileNames.verification) result.record))
      return result) :=
    .bind (keeps_write hK hplace (by decide) hnames.verification _).mapError fun _ => keeps_pure
  refine .bind (keeps_rebuild hK hnames hplace) fun found => ?_
  split
  · exact .bind keeps_ofExcept fun v => .bind keeps_pure hrecord
  · exact .bind keeps_pure hrecord

end Keeping

end RunDirectory

end StrongCyclic
