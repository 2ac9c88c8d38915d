import StrongCyclic.Proofs.Answer.CutOff
import StrongCyclic.Proofs.Disk.Frame
import StrongCyclic.Proofs.Synthesis.Calls

/-!
Calls whose time runs out. What the solver has printed by then ends anywhere. The output of the call for
a weak plan and of the calls for controllers is kept but not read: such a call is the last one, and the
run ends with a time-out whatever has been printed. The output of the call for undo pairs is read. If no
announced answer has been cut off, the pairs among its complete atoms are forbidden and the run goes on;
else the run ends with the fault of the output. Besides, a run ends if a file cannot be written.
-/

namespace StrongCyclic

open Job

variable {σ : Type}

/-! ### The jobs -/

/-- How the text of a reply is kept in a file before the job comes to an end. -/
inductive Kept {α : Type} (file : Path) (text : String) (answered : World σ)
    (reached : Except Failure α) : Except Failure α → World σ → Prop
  | unwritten {fault : FileFault} (hwrite : answered.files.write file text = .error fault) :
    Kept file text answered reached (.error (.file fault)) answered
  | written {files : FileTree} (hwrite : answered.files.write file text = .ok files) :
    Kept file text answered reached reached { answered with files }

/-- What the output of a call for undo pairs amounts to if it may have been cut off. -/
inductive Salvages (byType : Bool) (text : String) : Except Failure ConstraintFile → Prop
  | complete (hcomplete : SolverOutput.Complete text) :
    Salvages byType text
      (.ok ⟨FileNames.undoConstraints, UndoPair.constraints byType (UndoPair.printed text)⟩)
  | cutOff {fault : Answer.LineFault} (hcut : ¬ SolverOutput.Complete text)
    (hparse : SolverOutput.parse text = .error fault) :
    Salvages byType text (.error (.answer fault))

/-- The job makes one call. If its time runs out, the text is kept in the file and one of the endings
is come to. -/
def OnTimeOut {α : Type} (solver : Solver σ) (call : SolverCall) (file : Path)
    (budget : Option Duration) (world : World σ) (ending : String → Except Failure α → Prop)
    (result : Except Failure α) (after : World σ) (trace : List Exchange) : Prop :=
  ∃ reply, trace = [⟨call, budget, world.clock, reply⟩] ∧
    ∀ text, reply = .ok (.timedOut text) → ∃ answered reached,
      Returns (solver call budget) world (.timedOut text) answered ∧ ending text reached ∧
      Kept file text answered reached result after

theorem exists_salvages (byType : Bool) (text : String) :
    ∃ reached, Salvages byType text reached ∧
      (do
        let out ← readOutput text
        return ⟨FileNames.undoConstraints, UndoPair.constraints byType (UndoPair.ofOutput out)⟩) =
          reached := by
  rw [readOutput]
  cases hparse : SolverOutput.parse text with
  | error fault =>
    refine ⟨_, .cutOff (fun hcomplete => ?_) hparse, rfl⟩
    obtain ⟨out, hout⟩ := SolverOutput.exists_parse_iff.mpr hcomplete
    exact nomatch hparse.symm.trans hout
  | ok out =>
    refine ⟨_, .complete (SolverOutput.exists_parse_iff.mp ⟨out, hparse⟩), ?_⟩
    rw [← UndoPair.ofOutput_of_parse hparse]
    rfl

namespace Synthesis

theorem kept_readEstimate (file : Path) (text : String) (world : World σ) :
    Kept file text world (.ok .timedOut) ((readEstimate file (.timedOut text)).run.run world).1
      ((readEstimate file (.timedOut text)).run.run world).2 := by
  rw [readEstimate, run_bind, asFailure, run_mapError, run_change]
  dsimp only [SolverRun.stdout]
  cases hwrite : world.files.write file text with
  | error fault => exact .unwritten hwrite
  | ok files => exact .written hwrite

theorem kept_readUndo (file : Path) (byType : Bool) (text : String) (world : World σ) :
    ∃ reached, Salvages byType text reached ∧
      Kept file text world reached ((readUndo file byType (.timedOut text)).run.run world).1
        ((readUndo file byType (.timedOut text)).run.run world).2 := by
  obtain ⟨reached, hsalvages, heq⟩ := exists_salvages byType text
  refine ⟨reached, hsalvages, ?_⟩
  rw [readUndo, run_bind, asFailure, run_mapError, run_change]
  dsimp only [SolverRun.stdout]
  cases hwrite : world.files.write file text with
  | error fault => exact .unwritten hwrite
  | ok files =>
    rw [← heq]
    cases readOutput text <;> exact .written hwrite

theorem traced_onTimeOut {α : Type} {solver : Solver σ} {call : SolverCall} {file : Path}
    {budget : Option Duration} {world : World σ} {read' : SolverRun → Job (Recorded σ) Failure α}
    {read : SolverRun → Job σ Failure α} {ending : String → Except Failure α → Prop}
    (hsilent : ∀ run, (read run).withRecord = read' run)
    (hread : ∀ text answered, ∃ reached, ending text reached ∧
      Kept file text answered reached ((read (.timedOut text)).run.run answered).1
        ((read (.timedOut text)).run.run answered).2) :
    Traced (solver.recorded call budget >>= read') (solver call budget >>= read) world
      (OnTimeOut solver call file budget world ending) := by
  refine .bind (traced_recorded solver call budget) ?_ ?_
  · rintro failure after _ - rfl
    exact ⟨_, rfl, fun text htext => nomatch htext⟩
  rintro run answered _ hreply rfl
  rw [← hsilent]
  refine traced_withRecord ⟨_, rfl, fun text htext => ?_⟩
  obtain rfl : run = .timedOut text := Except.ok.inj htext
  obtain ⟨reached, hending, hkept⟩ := hread text answered
  exact ⟨answered, reached, hreply, hending, hkept⟩

theorem estimateBackbone_onTimeOut (solver : Solver σ) (call : SolverCall) (file : Path)
    (budget : Option Duration) (world : World σ) :
    Traced (estimateBackbone solver.recorded call file budget)
      (estimateBackbone solver call file budget) world
      (OnTimeOut solver call file budget world fun _ reached => reached = .ok .timedOut) :=
  traced_onTimeOut (withRecord_readEstimate file)
    fun text answered => ⟨_, rfl, kept_readEstimate file text answered⟩

theorem detectUndo_onTimeOut (solver : Solver σ) (call : SolverCall) (file : Path)
    (budget : Option Duration) (byType : Bool) (world : World σ) :
    Traced (detectUndo solver.recorded call file budget byType)
      (detectUndo solver call file budget byType) world
      (OnTimeOut solver call file budget world (Salvages byType)) :=
  traced_onTimeOut (withRecord_readUndo file byType) (kept_readUndo file byType)

end Synthesis

/-! ### The size search -/

namespace Search

variable {solver : Solver σ} {plan : SearchPlan} {range : SizeRange} {deadline : Deadline}
  {n : Nat} {world after : World σ} {made : List Exchange} {x : Exchange} {text : String}

/-- The search ends because time has run out at the size, unless a file cannot be written. -/
def ExpiresAt (n : Nat) (result : Except Failure SolveOutcome) : Prop :=
  result = .ok (.timedOut n) ∨ ∃ fault, result = .error (.file fault)

/-- The last exchange is the call for the size at which the search ends because time has run out. -/
def LastAt (plan : SearchPlan) (x : Exchange) (made : List Exchange)
    (result : Except Failure SolveOutcome) : Prop :=
  ∃ n before, made = before ++ [x] ∧ x.call = plan.call n ∧ ExpiresAt n result

theorem AttemptRun.timedOut {result : Except Failure (Option SolveOutcome)}
    (h : AttemptRun solver plan deadline n world result after made) (hx : x ∈ made)
    (hreply : x.reply = .ok (.timedOut text)) :
    made = [x] ∧ x.call = plan.call n ∧
      (result = .ok (some (.timedOut n)) ∨ ∃ fault, result = .error (.file fault)) := by
  cases h with
  | expired => cases hx
  | unmarked => cases hx
  | called hinTime hcall hsettles =>
    obtain rfl := List.mem_singleton.mp hx
    refine ⟨rfl, rfl, ?_⟩
    cases hreply
    cases hsettles with
    | unwritten => exact .inr ⟨_, rfl⟩
    | timedOut => exact .inl rfl
    | unmarked => exact .inr ⟨_, rfl⟩

/-- A search goes on only after a reply that is in time. -/
theorem SizesRun.timedOut {result : Except Failure SolveOutcome}
    (h : SizesRun solver plan range deadline n world result after made) (hx : x ∈ made)
    (hreply : x.reply = .ok (.timedOut text)) : LastAt plan x made result := by
  induction h with
  | past => cases hx
  | failed _ hattempt =>
    obtain ⟨hmade, hcall, hresult⟩ := hattempt.timedOut hx hreply
    exact ⟨_, [], hmade, hcall, .inr (by simpa using hresult)⟩
  | ended _ hattempt =>
    obtain ⟨hmade, hcall, hresult⟩ := hattempt.timedOut hx hreply
    exact ⟨_, [], hmade, hcall, .inl (by simpa using hresult)⟩
  | overflowed _ hattempt =>
    obtain ⟨printed, answered, files, -, -, -, -, -, rfl⟩ := hattempt.passed
    obtain rfl := List.mem_singleton.mp hx
    cases hreply
  | passed _ hattempt _ _ ih =>
    obtain ⟨printed, answered, files, -, -, -, -, -, rfl⟩ := hattempt.passed
    obtain rfl | hx := List.mem_cons.mp hx
    · cases hreply
    · obtain ⟨m, before, rfl, hcall, hresult⟩ := ih hx
      exact ⟨m, _ :: before, rfl, hcall, hresult⟩

/-- A search for which no time is left makes no call. -/
theorem SizesRun.expired {result : Except Failure SolveOutcome}
    (h : SizesRun solver plan range deadline range.min world result after made)
    (hexpired : deadline.isExpired world.clock = true) :
    made = [] ∧ ExpiresAt range.min result := by
  have hinTime : deadline.isExpired world.clock ≠ false := by simp [hexpired]
  cases h with
  | past hpast => exact absurd hpast (by simp [SizeRange.isPast])
  | failed _ hattempt =>
    cases hattempt with
    | unmarked => exact ⟨rfl, .inr ⟨_, rfl⟩⟩
    | called h => exact absurd h hinTime
  | ended _ hattempt =>
    cases hattempt with
    | expired => exact ⟨rfl, .inl rfl⟩
    | called h => exact absurd h hinTime
  | overflowed _ hattempt =>
    obtain ⟨printed, answered, files, h, -⟩ := hattempt.passed
    exact absurd h hinTime
  | passed _ hattempt =>
    obtain ⟨printed, answered, files, h, -⟩ := hattempt.passed
    exact absurd h hinTime

end Search

/-! ### The run -/

namespace Synthesis

open Search

variable {s : Settings} {solver : Solver σ} {providers : List (ConstraintProvider σ)}
  {directory instanceFile : Path} {task : Task} {deadline : Deadline} {hints : Hints}
  {world after : World σ} {x : Exchange} {undo weak : Option Exchange} {made : List Exchange}
  {text : String}

/-- The run ends with a time-out at the size, unless a file cannot be written. -/
def EndsAt (n : Nat) (ended : Except Trouble SolveOutcome) : Prop :=
  ended = .ok (.timedOut n) ∨ ∃ e fault, ended = .error e ∧ e.failure? = some (.file fault)

/-- The program that forbids the undo pairs that have been printed. -/
def printedFile (s : Settings) (text : String) : ConstraintFile :=
  ⟨FileNames.undoConstraints,
    UndoPair.constraints s.constraints.undoByType (UndoPair.printed text)⟩

/-- How the step for undo pairs ends if the time of its call has run out. -/
inductive UndoExpires (s : Settings) (directory : Path) (text : String) (answered : World σ) :
    Except Trouble (List Path) → World σ → Prop
  | unwritten {fault : FileFault}
    (hwrite : answered.files.write (directory.join FileNames.undoOutput) text = .error fault) :
    UndoExpires s directory text answered
      (.error (.during .detectingUndo (.failure (.file fault)))) answered
  | cutOff {files : FileTree} {fault : Answer.LineFault}
    (hwrite : answered.files.write (directory.join FileNames.undoOutput) text = .ok files)
    (hcut : ¬ SolverOutput.Complete text) (hparse : SolverOutput.parse text = .error fault) :
    UndoExpires s directory text answered
      (.error (.during .detectingUndo (.failure (.answer fault)))) { answered with files }
  | unforbidden {files : FileTree} {fault : FileFault}
    (hwrite : answered.files.write (directory.join FileNames.undoOutput) text = .ok files)
    (hcomplete : SolverOutput.Complete text)
    (hforbid : files.write ((printedFile s text).pathIn directory) (printedFile s text).contents =
      .error fault) :
    UndoExpires s directory text answered (.error (.failure (.file fault))) { answered with files }
  | forbidden {kept files : FileTree}
    (hwrite : answered.files.write (directory.join FileNames.undoOutput) text = .ok kept)
    (hcomplete : SolverOutput.Complete text)
    (hforbid : kept.write ((printedFile s text).pathIn directory) (printedFile s text).contents =
      .ok files) :
    UndoExpires s directory text answered (.ok [(printedFile s text).pathIn directory])
      { answered with files }

theorem run_write (file : ConstraintFile) (directory : Path) (world : World σ) :
    (file.write directory).run.run world =
      match world.files.write (file.pathIn directory) file.contents with
      | .ok files => (.ok (file.pathIn directory), { world with files })
      | .error fault => (.error (.file fault), world) := by
  rw [ConstraintFile.write, run_bind, asFailure, run_mapError, run_change]
  cases world.files.write (file.pathIn directory) file.contents <;> rfl

theorem undoExpires_useUndoReply (s : Settings) (directory : Path) (text : String)
    (answered : World σ) :
    UndoExpires s directory text answered
      ((useUndoReply s directory (.timedOut text)).run.run answered).1
      ((useUndoReply s directory (.timedOut text)).run.run answered).2 := by
  obtain ⟨reached, hsalvages, hkept⟩ := kept_readUndo (directory.join FileNames.undoOutput)
    s.constraints.undoByType text answered
  rw [useUndoReply, run_bind, during, run_mapError]
  generalize (readUndo (directory.join FileNames.undoOutput) s.constraints.undoByType
    (.timedOut text)).run.run answered = ending at hkept
  obtain ⟨result, after⟩ := ending
  dsimp only at hkept
  cases hkept with
  | unwritten hwrite => exact .unwritten hwrite
  | @written files hwrite =>
    cases hsalvages with
    | cutOff hcut hparse => exact .cutOff hwrite hcut hparse
    | complete hcomplete =>
      dsimp only [Except.mapError]
      rw [← printedFile, run_bind, asTrouble, run_mapError, run_write]
      dsimp only
      cases hforbid : files.write ((printedFile s text).pathIn directory)
          (printedFile s text).contents with
      | error fault => exact .unforbidden hwrite hcomplete hforbid
      | ok files => exact .forbidden hwrite hcomplete hforbid

/-- What becomes of a run after the call for undo pairs whose time has run out. -/
inductive UndoEnds (s : Settings) (providers : List (ConstraintProvider σ)) (directory : Path)
    (task : Task) (deadline : Deadline) (least : Nat) (text : String) (answered : World σ) :
    Except Trouble SolveOutcome → List Exchange → Prop
  | stopped {e : Trouble} {forbidden : World σ}
    (hundo : UndoExpires s directory text answered (.error e) forbidden) :
    UndoEnds s providers directory task deadline least text answered (.error e) []
  | ungathered {paths : List Path} {failure : Failure} {forbidden after : World σ}
    (hundo : UndoExpires s directory text answered (.ok paths) forbidden)
    (hfails : Fails (gather s providers directory task) forbidden failure after) :
    UndoEnds s providers directory task deadline least text answered (.error (.failure failure)) []
  | searched {paths constraints : List Path} {forbidden planned : World σ}
    {ended : Except Trouble SolveOutcome} {made : List Exchange}
    (hundo : UndoExpires s directory text answered (.ok paths) forbidden)
    (hgather : Returns (gather s providers directory task) forbidden constraints planned)
    (hexpired : deadline.isExpired planned.clock = true → made = [] ∧ EndsAt least ended) :
    UndoEnds s providers directory task deadline least text answered ended made

theorem useWeakReply_timedOut (s : Settings) (directory : Path) (text : String)
    (answered : World σ) :
    ((useWeakReply s directory (.timedOut text)).run.run answered).1 =
        .ok (.inl (.timedOut s.solver.sizes.min)) ∨
      ∃ fault, ((useWeakReply s directory (.timedOut text)).run.run answered).1 =
        .error (.during .estimatingBackbone (.failure (.file fault))) := by
  have hkept := kept_readEstimate (directory.join FileNames.weakPlanOutput) text answered
  rw [useWeakReply, run_bind, during, run_mapError]
  generalize (readEstimate (directory.join FileNames.weakPlanOutput)
    (.timedOut text)).run.run answered = ending at hkept
  obtain ⟨result, after⟩ := ending
  dsimp only at hkept
  cases hkept with
  | unwritten => exact .inr ⟨_, rfl⟩
  | written => exact .inl rfl

theorem HintsRun.timedOut {result : Except Trouble (SolveOutcome ⊕ Hints)}
    (h : HintsRun s solver directory task deadline world result after (some x))
    (hreply : x.reply = .ok (.timedOut text)) :
    result = .ok (.inl (.timedOut s.solver.sizes.min)) ∨
      ∃ fault, result = .error (.during .estimatingBackbone (.failure (.file fault))) := by
  cases h with
  | failed => cases hreply
  | @broken _ _ _ _ answered _ _ _ _ huse =>
    cases hreply
    have hends := useWeakReply_timedOut s directory text answered
    rwa [huse] at hends
  | @settled _ _ _ _ answered _ _ _ _ huse =>
    cases hreply
    have hends := useWeakReply_timedOut s directory text answered
    rwa [huse] at hends

theorem UndoRun.timedOut {result : Except Trouble (List Path)}
    (h : UndoRun s solver directory instanceFile deadline world result after (some x))
    (hreply : x.reply = .ok (.timedOut text)) :
    ∃ between answered, Returns (solver x.call x.budget) between (.timedOut text) answered ∧
      UndoExpires s directory text answered result after := by
  cases h with
  | failed => cases hreply
  | @broken _ _ _ _ between answered _ _ _ hcall huse =>
    cases hreply
    have hends := undoExpires_useUndoReply s directory text answered
    rw [huse] at hends
    exact ⟨between, answered, hcall, hends⟩
  | @settled _ _ _ between answered _ _ _ hcall huse =>
    cases hreply
    have hends := undoExpires_useUndoReply s directory text answered
    rw [huse] at hends
    exact ⟨between, answered, hcall, hends⟩

/-- A controller that is searched for: the search is not reached, or its time-outs are those of the
run. -/
theorem ControllerRun.planned_or {result : Except Trouble Findings}
    (h : ControllerRun s solver providers directory instanceFile task deadline hints world result
      after undo made) :
    (∃ e, PlanRun s solver providers directory instanceFile task deadline hints world (.error e)
        after undo ∧ result = .error e ∧ made = []) ∨
      ∃ plan planned reached searched, PlanRun s solver providers directory instanceFile task
          deadline hints world (.ok plan) planned undo ∧
        SizesRun solver plan hints.sizes deadline hints.sizes.min planned reached searched made ∧
        ∀ n, ExpiresAt n reached → EndsAt n (result.map Findings.outcome) := by
  cases h with
  | unplanned hplan => exact .inl ⟨_, hplan, rfl, rfl⟩
  | failed hplan hrun =>
    refine .inr ⟨_, _, _, _, hplan, hrun, fun n hexpires => ?_⟩
    obtain hok | ⟨fault, herror⟩ := hexpires
    · cases hok
    · cases herror
      exact .inr ⟨_, fault, rfl, rfl⟩
  | unchecked hplan hrun hfails =>
    refine .inr ⟨_, _, _, _, hplan, hrun, fun n hexpires => ?_⟩
    obtain hok | ⟨fault, herror⟩ := hexpires
    · -- after a time-out nothing is checked
      cases hok
      cases hfails
    · cases herror
  | done hplan hrun =>
    refine .inr ⟨_, _, _, _, hplan, hrun, fun n hexpires => ?_⟩
    obtain hok | ⟨fault, herror⟩ := hexpires
    · cases hok
      exact .inl rfl
    · cases herror

theorem ControllerRun.undo_timedOut {result : Except Trouble Findings}
    (h : ControllerRun s solver providers directory instanceFile task deadline hints world result
      after (some x) made) (hreply : x.reply = .ok (.timedOut text)) :
    ∃ between answered, Returns (solver x.call x.budget) between (.timedOut text) answered ∧
      UndoEnds s providers directory task deadline hints.sizes.min text answered
        (result.map Findings.outcome) made := by
  obtain ⟨e, hplan, rfl, rfl⟩ | ⟨plan, planned, reached, searched, hplan, hrun, hends⟩ :=
    h.planned_or
  · cases hplan with
    | stopped _ hundo =>
      obtain ⟨between, answered, hcall, hexpires⟩ := hundo.timedOut hreply
      exact ⟨between, answered, hcall, .stopped hexpires⟩
    | ungathered _ hundo hfails =>
      obtain ⟨between, answered, hcall, hexpires⟩ := hundo.timedOut hreply
      exact ⟨between, answered, hcall, .ungathered hexpires hfails⟩
  · cases hplan with
    | planned _ hundo hgather _ =>
      obtain ⟨between, answered, hcall, hexpires⟩ := hundo.timedOut hreply
      refine ⟨between, answered, hcall, .searched hexpires hgather fun hexpired => ?_⟩
      obtain ⟨hmade, hexpiresAt⟩ := hrun.expired hexpired
      exact ⟨hmade, hends _ hexpiresAt⟩

theorem ControllerRun.made_timedOut {result : Except Trouble Findings}
    (h : ControllerRun s solver providers directory instanceFile task deadline hints world result
      after undo made) (hx : x ∈ made) (hreply : x.reply = .ok (.timedOut text)) :
    ∃ n before, made = before ++ [x] ∧
      x.call.args = "-c" :: ("numStates=" ++ toString n) :: s.solver.args ∧
      EndsAt n (result.map Findings.outcome) := by
  obtain ⟨e, hplan, rfl, rfl⟩ | ⟨plan, planned, reached, searched, hplan, hrun, hends⟩ :=
    h.planned_or
  · cases hx
  · obtain ⟨n, before, hmade, hcall, hexpires⟩ := hrun.timedOut hx hreply
    cases hplan with
    | planned _ _ _ hplan =>
      refine ⟨n, before, hmade, ?_, hends n hexpires⟩
      rw [hcall, SearchPlan.call, hplan.args]

section Synthesis

variable {result : Except Trouble Findings}

theorem SynthesisRun.weak_timedOut
    (h : SynthesisRun s solver providers directory task world result after (some x) undo made)
    (hreply : x.reply = .ok (.timedOut text)) :
    undo = none ∧ made = [] ∧ EndsAt s.solver.sizes.min (result.map Findings.outcome) := by
  cases h with
  | unhinted _ hhints =>
    obtain hok | ⟨fault, herror⟩ := hhints.timedOut hreply
    · cases hok
    · cases herror
      exact ⟨rfl, rfl, .inr ⟨_, fault, rfl, rfl⟩⟩
  | settled _ hhints =>
    obtain hok | ⟨fault, herror⟩ := hhints.timedOut hreply
    · cases hok
      exact ⟨rfl, rfl, .inl rfl⟩
    · cases herror
  | searched _ hhints =>
    obtain hok | ⟨fault, herror⟩ := hhints.timedOut hreply
    · cases hok
    · cases herror

theorem SynthesisRun.undo_timedOut
    (h : SynthesisRun s solver providers directory task world result after weak (some x) made)
    (hreply : x.reply = .ok (.timedOut text)) :
    ∃ deadline least between answered,
      Returns (solver x.call x.budget) between (.timedOut text) answered ∧
      UndoEnds s providers directory task deadline least text answered
        (result.map Findings.outcome) made := by
  cases h with
  | searched _ _ hsearch => exact ⟨_, _, hsearch.undo_timedOut hreply⟩

theorem SynthesisRun.made_timedOut
    (h : SynthesisRun s solver providers directory task world result after weak undo made)
    (hx : x ∈ made) (hreply : x.reply = .ok (.timedOut text)) :
    ∃ n before, made = before ++ [x] ∧
      x.call.args = "-c" :: ("numStates=" ++ toString n) :: s.solver.args ∧
      EndsAt n (result.map Findings.outcome) := by
  cases h with
  | searched _ _ hsearch => exact hsearch.made_timedOut hx hreply
  | _ => cases hx

end Synthesis

/-- What becomes of a call whose time runs out, and of the run that it belongs to: neither a weak plan
nor a controller is read from its output, so that the run ends with a time-out, and undo pairs are read
from it just if no announced answer has been cut off. -/
theorem timedOut_endings (s : Settings) (solver : Solver σ)
    (providers : List (ConstraintProvider σ)) (world : World σ) :
    (∀ call file budget, Traced (estimateBackbone solver.recorded call file budget)
      (estimateBackbone solver call file budget) world
      (OnTimeOut solver call file budget world fun _ reached => reached = .ok .timedOut)) ∧
    (∀ plan range deadline, Traced (sizes solver.recorded plan range deadline)
      (sizes solver plan range deadline) world fun result _ trace =>
        ∀ x ∈ trace, ∀ text, x.reply = .ok (.timedOut text) → LastAt plan x trace result) ∧
    (∀ call file budget byType, Traced (detectUndo solver.recorded call file budget byType)
      (detectUndo solver call file budget byType) world
      (OnTimeOut solver call file budget world (Salvages byType))) ∧
    Traced (solve s solver.recorded (providers.map ConstraintProvider.withRecord))
      (solve s solver providers) world fun result after trace =>
        ∃ weak undo made, trace = weak.toList ++ undo.toList ++ made ∧
          SolveRun s solver providers world result after weak undo made ∧
          (∀ x ∈ weak, ∀ text, x.reply = .ok (.timedOut text) → undo = none ∧ made = [] ∧
            EndsAt s.solver.sizes.min (result.map SolveReport.outcome)) ∧
          (∀ x ∈ undo, ∀ text, x.reply = .ok (.timedOut text) →
            ∃ directory task deadline least between answered,
              Returns (solver x.call x.budget) between (.timedOut text) answered ∧
              UndoEnds s providers directory task deadline least text answered
                (result.map SolveReport.outcome) made) ∧
          ∀ x ∈ made, ∀ text, x.reply = .ok (.timedOut text) → ∃ n before, made = before ++ [x] ∧
            x.call.args = "-c" :: ("numStates=" ++ toString n) :: s.solver.args ∧
            EndsAt n (result.map SolveReport.outcome) := by
  refine ⟨fun call file budget => estimateBackbone_onTimeOut solver call file budget world, ?_,
    fun call file budget byType => detectUndo_onTimeOut solver call file budget byType world, ?_⟩
  · intro plan range deadline
    exact (traced_sizesFrom solver plan range deadline _ world).imp
      fun result after made hrun x hx text hreply => hrun.timedOut hx hreply
  refine (traced_solve s solver providers world).imp ?_
  rintro result after _ ⟨weak, undo, made, rfl, hrun⟩
  refine ⟨weak, undo, made, rfl, hrun, ?_⟩
  cases hrun with
  | unopened => simp
  | trivial => simp
  | @synthesized directory task result _ _ _ _ _ hopen hgoal hrun =>
    have hmap : ∀ report : Findings → SolveReport, (∀ f, (report f).outcome = f.outcome) →
        (result.map report).map SolveReport.outcome = result.map Findings.outcome := by
      intro report hreport
      cases result with
      | error e => rfl
      | ok findings => exact congrArg Except.ok (hreport findings)
    rw [hmap _ fun _ => rfl]
    refine ⟨?_, ?_, fun x hx text => hrun.made_timedOut hx⟩
    · rintro x rfl text hreply
      exact hrun.weak_timedOut hreply
    · rintro x rfl text hreply
      exact ⟨directory, task, hrun.undo_timedOut hreply⟩

/-! ### An output that ends within a pair -/

/-- What a solver has printed that is stopped within the second of two pairs. -/
def stoppedReply : String :=
  "Answer: 1\nundo(\"a(x)\",\"b(x)\") undo(\"c(x)\",\"d"

example : UndoPair.printed stoppedReply = [⟨"a(x)", "b(x)"⟩] := by decide +kernel

/-- A directory for the output; the solver is stopped at its first call. -/
def stoppedWorld : World Solver.Script where
  files := { entries := [(["run"], .directory)], workingDirectory := ["run"] }
  solver := ⟨[.run (.timedOut stoppedReply)], []⟩
  clock := ⟨0⟩

/-- The pair that has been printed completely is lost. -/
theorem not_forall_timedOut_salvaged :
    ¬ ∀ (σ : Type) (solver : Solver σ) (call : SolverCall) (file : Path) (budget : Option Duration)
        (byType : Bool) (text : String) (world answered : World σ) (files : FileTree),
        Returns (solver call budget) world (.timedOut text) answered →
        answered.files.write file text = .ok files →
        Returns (detectUndo solver call file budget byType) world
          ⟨FileNames.undoConstraints, UndoPair.constraints byType (UndoPair.printed text)⟩
          { answered with files } := by
  intro hall
  have hwrite : (stoppedWorld.files.write ⟨"undo.out"⟩ stoppedReply).toOption.isSome = true := by
    decide +kernel
  obtain ⟨files, hfiles⟩ := Option.isSome_iff_exists.mp hwrite
  have hreturns := hall _ Solver.scripted ⟨[], [], ⟨"."⟩⟩ ⟨"undo.out"⟩ none false stoppedReply
    stoppedWorld _ files rfl (Fallible.toOption_eq_some.mp hfiles)
  have hfault : ((detectUndo Solver.scripted ⟨[], [], ⟨"."⟩⟩ ⟨"undo.out"⟩ none false).run.run
      stoppedWorld).1 = .error (.answer ⟨2, .malformedAtom "undo(\"c(x)\",\"d"⟩) := by
    decide +kernel
  rw [hreturns] at hfault
  cases hfault

end Synthesis

end StrongCyclic
