import StrongCyclic.Proofs.Disk.Frame
import StrongCyclic.Proofs.Run.Check
import StrongCyclic.Proofs.Run.Recording
import StrongCyclic.Proofs.Verification.PlanningGoal

/-!
The record of a check. A check that ends with a result has recorded it: the record in the directory is
the one of the result. A check that ends with an error has written no record, whichever step has
failed, and removed none: the directory says afterwards what an earlier check has left there.
-/

namespace StrongCyclic

namespace RunDirectory

open FileTree Job

variable {σ : Type} {directory : Path} {world after : World σ}

/-- The mark of a record of a sound controller. -/
def soundMark : String := "Solution is sound: true"

/-- The record in the directory says that the controller is sound. -/
def SaysSound (directory : Path) (tree : FileTree) : Prop :=
  ∃ text, tree.read (directory.join FileNames.verification) = .ok text ∧
    Text.contains soundMark text = true

theorem contains_soundMark_record (check : RunCheck) :
    Text.contains soundMark check.record = check.sound := by
  have hall : ∀ sound timedOut,
      Text.contains soundMark (RunCheck.mk ⟨""⟩ sound timedOut 0 0).record = sound := by
    decide +kernel
  exact hall check.sound check.timedOut

/-! ### The steps of a check -/

/-- The steps up to the record. -/
def judge (directory : Path) : Job σ Trouble RunCheck := do
  match ← rebuild directory with
  | some (c, task) =>
    let v ← Job.ofExcept (verdictOf directory c task)
    return RunCheck.ofVerdict directory c v
  | none => return RunCheck.ofTimeOut directory

/-- The last step. -/
def leaveRecord (directory : Path) (result : RunCheck) : Job σ Trouble RunCheck := do
  let file := directory.join FileNames.verification
  Job.duringFile (.writing file) (Job.change (·.write file result.record))
  return result

theorem check_eq (directory : Path) :
    (check directory : Job σ Trouble RunCheck) = judge directory >>= leaveRecord directory := by
  rw [check, judge, bind_assoc]
  refine bind_congr fun found => ?_
  cases found with
  | none => rfl
  | some found => simp only [bind_assoc, pure_bind, leaveRecord]

/-! ### What the steps leave alone -/

section Maintaining

variable {P : World σ → Prop}

theorem maintains_lastOutput : Maintains P (lastOutput directory) := by
  refine .bind maintains_query.mapError fun names => ?_
  split
  · exact maintains_pure
  · exact maintains_throw

theorem maintains_loadTask (path : Path) : Maintains P (loadTask path) :=
  .bind maintains_query.mapError fun _ => maintains_ofExcept.mapError

section Writing

variable (hwrites : ∀ name ∈ [FileNames.controllerText, FileNames.controllerGraph],
  ∀ text (world : World σ) files, world.files.write (directory.join name) text = .ok files →
    P world → P { world with files })

include hwrites

/-- To rebuild a controller only its two files are written. -/
theorem maintains_rebuild : Maintains P (rebuild directory) := by
  have hwrite : ∀ name ∈ [FileNames.controllerText, FileNames.controllerGraph], ∀ text,
      Maintains P (change (·.write (directory.join name) text) : Job σ FileFault Unit) :=
    fun name hname text => maintains_change (hwrites name hname text)
  refine .bind maintains_lastOutput fun file => .bind maintains_query.mapError fun output => ?_
  split
  · exact maintains_pure
  refine .bind maintains_ofExcept fun answer => .bind (maintains_loadTask _) fun task => ?_
  refine .bind maintains_ofExcept.mapError fun c => .bind ?_ fun _ => maintains_pure
  exact .bind (hwrite _ (by simp) _).mapError fun _ => (hwrite _ (by simp) _).mapError

/-- Up to the record only the two files of the controller are written. -/
theorem maintains_judge : Maintains P (judge directory) := by
  refine .bind (maintains_rebuild hwrites) fun found => ?_
  split
  · exact .bind maintains_ofExcept fun v => maintains_pure
  · exact maintains_pure

end Writing

end Maintaining

/-- The record is read before and after the steps up to the record alike. -/
theorem read_judge (directory : Path) (world : World σ) (text : String) :
    ((judge directory).run.run world).2.files.read (directory.join FileNames.verification) =
        .ok text ↔
      world.files.read (directory.join FileNames.verification) = .ok text := by
  have hnames : ∀ name ∈ [FileNames.controllerText, FileNames.controllerGraph],
      IsEntryName name ∧ FileNames.verification ≠ name := by decide
  have hmaintains : Maintains (fun between : World σ =>
      between.files.read (directory.join FileNames.verification) = .ok text ↔
        world.files.read (directory.join FileNames.verification) = .ok text)
      (judge directory) := by
    refine maintains_judge fun name hname written between files hwrite hsame => ?_
    obtain ⟨hentry, hne⟩ := hnames name hname
    exact (read_join_of_write_join hentry (by decide) hne hwrite).trans hsame
  exact hmaintains world Iff.rfl

theorem judge_directory {result : RunCheck} (h : Returns (judge directory) world result after) :
    result.directory = directory := by
  obtain ⟨found, between, -, h⟩ := returns_bind.mp h
  split at h
  · obtain ⟨v, between, -, h⟩ := returns_bind.mp h
    obtain ⟨rfl, -⟩ := returns_pure.mp h
    rfl
  · obtain ⟨rfl, -⟩ := returns_pure.mp h
    rfl

/-! ### The record -/

theorem check_records {result : RunCheck} (h : Returns (check directory) world result after) :
    result.directory = directory ∧
      after.files.read (directory.join FileNames.verification) = .ok result.record := by
  rw [check_eq] at h
  obtain ⟨judged, between, hjudge, h⟩ := returns_bind.mp h
  obtain ⟨_, last, hwrite, h⟩ := returns_bind.mp h
  obtain ⟨rfl, rfl⟩ := returns_pure.mp h
  obtain ⟨files, hfiles, rfl⟩ := returns_change.mp (returns_duringFile.mp hwrite)
  exact ⟨judge_directory hjudge, read_of_write hfiles⟩

theorem check_fails {e : Trouble} (h : Fails (check directory) world e after) (text : String) :
    after.files.read (directory.join FileNames.verification) = .ok text ↔
      world.files.read (directory.join FileNames.verification) = .ok text := by
  have hsame := read_judge directory world text
  rw [Fails, check_eq, run_bind] at h
  rcases hrun : (judge directory).run.run world with ⟨result, between⟩
  rw [hrun] at h hsame
  cases result with
  | error e' =>
    cases h
    exact hsame
  | ok result =>
    -- the record itself cannot be written
    dsimp only at h
    rw [leaveRecord, run_bind, duringFile, run_mapError, run_change] at h
    cases hwrite : between.files.write (directory.join FileNames.verification) result.record with
    | ok files =>
      rw [hwrite] at h
      cases h
    | error fault =>
      rw [hwrite] at h
      cases h
      exact hsame

/-- The directory states the result of a check, or what it has stated before if the check fails. -/
theorem check_record (directory : Path) (world : World σ) :
    (∀ result after, Returns (check directory) world result after →
      result.directory = directory ∧
      after.files.read (directory.join FileNames.verification) =
        .ok ("Solution is sound: " ++ toString result.sound ++
          "\nTimed Out: " ++ toString result.timedOut) ∧
      (SaysSound directory after.files ↔ result.sound = true)) ∧
    ∀ e after, Fails (check directory) world e after →
      (∀ text, after.files.read (directory.join FileNames.verification) = .ok text ↔
        world.files.read (directory.join FileNames.verification) = .ok text) ∧
      (SaysSound directory after.files ↔ SaysSound directory world.files) := by
  constructor
  · intro result after h
    obtain ⟨hdirectory, hread⟩ := check_records h
    refine ⟨hdirectory, hread, ?_⟩
    rw [SaysSound, hread, ← contains_soundMark_record result]
    simp
  · intro e after h
    have hsame := check_fails h
    exact ⟨hsame, exists_congr fun text => and_congr_left fun _ => hsame text⟩

/-! ### A record that is left over -/

/-- An output whose controller starts with an open door. -/
def openedOutput : String :=
  "Answer: 1\nholds(0,0,1)\nSATISFIABLE\n"

/-- The directory of a run with this output for the locked door, in which an earlier check has left its
record. -/
def leftOverWorld : World Unit where
  files :=
    { entries := [(["run"], .directory), (["run", "output.sas"], .file Verification.lockedDoorFile),
        (["run", "clingo_out_1.out"], .file openedOutput),
        (["run", "verify.out"], .file "Solution is sound: true\nTimed Out: false")]
      workingDirectory := [] }
  solver := ()
  clock := ⟨0⟩

/-- After a check that fails the directory may say that its controller is sound. -/
theorem not_forall_failed_check_silent :
    ¬ ∀ (σ : Type) (directory : Path) (world after : World σ) (e : Trouble),
        Fails (check directory) world e after → ¬ SaysSound directory after.files := by
  intro hall
  have hfails : ((check ⟨"run"⟩).run.run leftOverWorld).1.isOk = false := by decide +kernel
  rcases hrun : (check ⟨"run"⟩).run.run leftOverWorld with ⟨result, after⟩
  rw [hrun] at hfails
  cases result with
  | ok result => cases hfails
  | error e =>
    have hsays : SaysSound ⟨"run"⟩ leftOverWorld.files :=
      ⟨"Solution is sound: true\nTimed Out: false", by decide +kernel, by decide +kernel⟩
    obtain ⟨text, hread, hsound⟩ := hsays
    exact hall _ _ _ _ e hrun ⟨text, (check_fails hrun text).mpr hread, hsound⟩

end RunDirectory

end StrongCyclic
