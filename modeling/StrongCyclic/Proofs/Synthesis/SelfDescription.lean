import StrongCyclic.Proofs.Synthesis.Leftovers

/-!
Whether the directory of a run describes the run. It should have the outputs of the sizes that the run
has attempted and no others, so that a later check goes by an output of this run, and the mark that
there is no weak plan exactly if that is the outcome. Old outputs are removed before the search, but a
run may end before it comes to the search, and the mark is never removed. `solve_describes_iff` says
exactly when the directory describes the run.
-/

namespace StrongCyclic.Synthesis

open FileTree Job Place RunDirectory Search

variable {σ : Type} {s : Settings} {directory : Place} {made : List Exchange}
  {report : SolveReport} {tree prepared : FileTree}

/-- The run has marked the output of the size: its time ran out in the search. -/
def Marked (s : Settings) (report : SolveReport) (n : Nat) : Prop :=
  CameToSearch s report ∧ report.outcome = .timedOut n

/-- The directory describes the run: the outputs in it are those of the sizes attempted, and the mark
that there is no weak plan is there if that is the outcome. -/
structure Describes (s : Settings) (directory : Place) (report : SolveReport)
    (made : List Exchange) (tree : FileTree) : Prop where
  outputs : ∀ name n, FileNames.attemptSize? name = some n →
    (name ∈ tree.namesIn directory ↔
      name = FileNames.attemptOutput n ∧ Attempted s.solver.args made (Marked s report) n)
  mark : FileNames.unsolvable ∈ tree.namesIn directory ↔ report.outcome = .unsolvable

/-- Nothing that does not come from the run could be taken for a part of its description: neither
outputs and marks that were in the directory before, nor the copy of the controller program. -/
structure NothingForeign (s : Settings) (directory : Place) (report : SolveReport)
    (made : List Exchange) (prepared : FileTree) : Prop where
  outputs : CameToSearch s report ∨
    ∀ name ∈ prepared.namesIn directory, FileNames.attemptSize? name = none
  mark : report.outcome = .unsolvable ∨ FileNames.unsolvable ∉ prepared.namesIn directory
  program : CameToSearch s report →
    ∀ name, s.solver.controllerModel.fileName? = some name →
      name ≠ FileNames.unsolvable ∧ ∀ n, FileNames.attemptSize? name = some n →
        name = FileNames.attemptOutput n ∧ Attempted s.solver.args made (Marked s report) n

theorem attemptSize?_unsolvable : FileNames.attemptSize? FileNames.unsolvable = none := by
  decide

theorem unsolvable_ne_attemptOutput (n : Nat) : FileNames.unsolvable ≠ FileNames.attemptOutput n := by
  intro heq
  simpa [FileNames.unsolvable, FileNames.attemptOutput] using congrArg (·.toList.head?) heq

/-! ### Runs that do not come to the search -/

theorem describes_iff_of_ended (hcame : ¬ CameToSearch s report)
    (hattempted : ∀ n, ¬ Attempted s.solver.args made (Marked s report) n)
    (htree : Lists directory {name | name ∈ prepared.namesIn directory ∨
      report.outcome = .unsolvable ∧ name = FileNames.unsolvable} tree) :
    Describes s directory report made tree ↔
      NothingForeign s directory report made prepared := by
  have houtput : ∀ name n, FileNames.attemptSize? name = some n →
      (name ∈ tree.namesIn directory ↔ name ∈ prepared.namesIn directory) := by
    intro name n hn
    rw [htree name (.inl (by simp [hn]))]
    refine ⟨fun h => h.resolve_right ?_, .inl⟩
    rintro ⟨-, rfl⟩
    exact nomatch hn.symm.trans attemptSize?_unsolvable
  have hmark : FileNames.unsolvable ∈ tree.namesIn directory ↔
      FileNames.unsolvable ∈ prepared.namesIn directory ∨ report.outcome = .unsolvable := by
    rw [htree _ (.inr rfl)]
    simp
  constructor
  · intro h
    refine ⟨.inr fun name hname => ?_, ?_, fun h => absurd h hcame⟩
    · by_contra hsize
      obtain ⟨n, hn⟩ := Option.ne_none_iff_exists'.mp hsize
      exact hattempted n ((h.outputs name n hn).mp ((houtput name n hn).mpr hname)).2
    · exact or_iff_not_imp_left.mpr fun hne hold => hne (h.mark.mp (hmark.mpr (.inl hold)))
  · intro h
    have hnone := h.outputs.resolve_left hcame
    refine ⟨fun name n hn => ?_, ?_⟩
    · rw [houtput name n hn]
      refine iff_of_false (fun hname => ?_) fun hboth => hattempted n hboth.2
      exact nomatch hn.symm.trans (hnone name hname)
    · rw [hmark]
      exact ⟨fun hor => hor.elim (fun hold => h.mark.resolve_right (not_not.mpr hold)) id, .inr⟩

/-! ### Runs that come to the search -/

theorem describes_iff_of_searched {program : String} (hcame : CameToSearch s report)
    (hprogram : s.solver.controllerModel.fileName? = some program)
    (htree : Searched s directory {name | name ∈ prepared.namesIn directory} made
      (Marked s report) program tree) :
    Describes s directory report made tree ↔
      NothingForeign s directory report made prepared := by
  have houtput : ∀ name n, FileNames.attemptSize? name = some n →
      (name ∈ tree.namesIn directory ↔ name = program ∨
        name = FileNames.attemptOutput n ∧ Attempted s.solver.args made (Marked s report) n) := by
    intro name n hn
    rw [htree.lists name (.inl (by simp [hn]))]
    constructor
    · rintro (⟨-, hnone⟩ | hname | ⟨m, hm, rfl⟩)
      · exact nomatch hn.symm.trans hnone
      · exact .inl hname
      · obtain rfl := FileNames.eq_of_attemptSize?_attemptOutput hn
        exact .inr ⟨rfl, hm⟩
    · rintro (hname | ⟨hname, hattempted⟩)
      · exact .inr (.inl hname)
      · exact .inr (.inr ⟨n, hattempted, hname⟩)
  have hmark : FileNames.unsolvable ∈ tree.namesIn directory ↔
      FileNames.unsolvable ∈ prepared.namesIn directory ∨ FileNames.unsolvable = program := by
    rw [htree.lists _ (.inr rfl)]
    simp [attemptSize?_unsolvable, unsolvable_ne_attemptOutput]
  constructor
  · intro h
    have hnone : FileNames.unsolvable ∉ tree.namesIn directory :=
      fun hmem => hcame.2.1 (h.mark.mp hmem)
    rw [hmark, not_or] at hnone
    refine ⟨.inl hcame, .inr hnone.1, fun _ name hname => ?_⟩
    obtain rfl := Option.some.inj (hprogram.symm.trans hname)
    exact ⟨Ne.symm hnone.2, fun n hn => (h.outputs _ n hn).mp ((houtput _ n hn).mpr (.inl rfl))⟩
  · intro h
    obtain ⟨hne, hsize⟩ := h.program hcame program hprogram
    refine ⟨fun name n hn => ?_, ?_⟩
    · rw [houtput name n hn]
      refine ⟨fun hor => hor.elim ?_ id, .inr⟩
      rintro rfl
      exact hsize n hn
    · rw [hmark]
      refine iff_of_false (not_or.mpr ⟨?_, Ne.symm hne⟩) hcame.2.1
      exact h.mark.resolve_left hcame.2.1

/-! ### Every run -/

theorem Remains.describes_iff {before : List Exchange}
    (h : Remains s directory {name | name ∈ prepared.namesIn directory} report made tree)
    (hbefore : ∀ x ∈ before, x.call.args = ["--stats"]) :
    Written s directory (before ++ made) (Marked s report) tree ∧
      (Describes s directory report (before ++ made) tree ↔
        NothingForeign s directory report (before ++ made) prepared) := by
  cases h with
  | ended hcame hlists =>
    have hattempted : ∀ n, ¬ Attempted s.solver.args (before ++ []) (Marked s report) n := by
      intro n
      rw [attempted_append_of_args hbefore]
      simp [Attempted, Marked, hcame]
    exact ⟨fun n _ hn => absurd hn (hattempted n), describes_iff_of_ended hcame hattempted hlists⟩
  | searched hcame hprogram hsearched =>
    have hmarked : (fun n => report.outcome = .timedOut n) = Marked s report :=
      funext fun n => propext (iff_and_self.mpr fun _ => hcame)
    rw [hmarked] at hsearched
    have hsearched := hsearched.prepend hbefore
    exact ⟨hsearched.written, describes_iff_of_searched hcame hprogram hsearched⟩

/-- A check of the directory finds that the time ran out, or it is the check in memory of the planning
task and an output that the run has got from the solver. -/
def ChecksOwnOutput (s : Settings) (directory : Place) (made : List Exchange) (text : String)
    (check : RunCheck) : Prop :=
  check = .ofTimeOut (pathOf directory) ∨
    ∃ n output, (∃ x ∈ made, x.call.args = sizeArgs s.solver.args n ∧
        x.reply = .ok (.finished output)) ∧
      RunCheck.inMemory? (pathOf directory) text output = some check

/-- A later check of a directory that describes the run goes by what the run has left. -/
theorem Describes.checksOwnOutput {later last : World σ} {text : String} {check : RunCheck}
    (h : Describes s directory report made later.files) (hplace : Proper directory)
    (hwritten : Written s directory made (Marked s report) later.files)
    (htask : HasTask directory text later.files)
    (hcheck : Returns (RunDirectory.check (pathOf directory)) later check last) :
    ChecksOwnOutput s directory made text check := by
  have hattempts : Attempts directory (IsOutput s.solver.args made (Marked s report))
      later.files := by
    intro name hname n hn
    obtain ⟨rfl, hattempted⟩ := (h.outputs name n hn).mp hname
    exact ⟨rfl, hwritten n (FileNames.lt_of_attemptSize? hn) hattempted⟩
  obtain ⟨n, output, houtput, -, -, hlate, hinTime⟩ :=
    RunDirectory.check_returns hplace htask hattempts hcheck
  cases hmark : Text.contains timedOutMark output with
  | true => exact .inl (hlate hmark)
  | false =>
    have hreply := houtput.resolve_right fun hlate => by simp [hmark] at hlate
    exact .inr ⟨n, output, hreply, (hinTime hmark).2⟩

/-- When the directory describes the run, and what follows for later checks. -/
theorem solve_describes_iff (s : Settings) (solver : Solver σ)
    (providers : List (ConstraintProvider σ)) (world : World σ) (hsolver : solver.OnlyReplies)
    (hproviders : ∀ provider ∈ providers, provider.OnlyReplies)
    (hworking : Proper world.files.workingDirectory) :
    Traced (solve s solver.recorded (providers.map ConstraintProvider.withRecord))
      (solve s solver providers) world fun result after made => ∀ report, result = .ok report →
        ∃ directory prepared,
          world.files.createDirectories s.output.directory = .ok prepared ∧
          prepared.resolve s.output.directory = .ok directory ∧
          Written s directory made (Marked s report) after.files ∧
          (Describes s directory report made after.files ↔
            NothingForeign s directory report made prepared) ∧
          (Describes s directory report made after.files →
            ∀ (later last : World σ) text check, later.files = after.files →
              HasTask directory text later.files →
              Returns (RunDirectory.check (pathOf directory)) later check last →
              ChecksOwnOutput s directory made text check) := by
  refine (traced_solve s solver providers world).imp ?_
  rintro result after _ ⟨weak, undo, made, rfl, hrun⟩ report rfl
  obtain ⟨directory, prepared, hplace, hcreate, hresolve, hremains⟩ :=
    hrun.remains hsolver hproviders hworking
  obtain ⟨hwritten, hiff⟩ := hremains.describes_iff hrun.args
  refine ⟨directory, prepared, hcreate, hresolve, hwritten, hiff, ?_⟩
  intro hdescribes later last text check hfiles htask hcheck
  rw [← hfiles] at hdescribes hwritten
  exact hdescribes.checksOwnOutput hplace hwritten htask hcheck

/-! ### A directory with old outputs -/

/-- The directory of an earlier run, which has solved the task at size 7, and of a run before that,
which has found that there is no weak plan. -/
def usedWorld (text : String) : World Solver.Script where
  files :=
    { entries := [(["door"], .directory), (["door", "controller.lp"], .file ""),
        (["door", "task.sas"], .file text), (["door", "out"], .directory),
        (["door", "out", "clingo_out_7.out"], .file idleReply),
        (["door", "out", "unsat.out"], .file "Unsat")]
      workingDirectory := ["door"] }
  solver := ⟨[.run (.finished idleReply)], []⟩
  clock := ⟨0⟩

/-- A run in the directory, with a record of its calls. -/
def usedRun (text : String) : Except Trouble SolveReport × World (Recorded Solver.Script) :=
  (solve (lockedDoorSettings "controller.lp") Solver.scripted.recorded
    (List.map ConstraintProvider.withRecord [])).run.run ((usedWorld text).withRecord [])

theorem usedRun_lockedDoor :
    (usedRun Verification.lockedDoorFile).1 = .ok (lockedDoorReport idleCheck) := by
  decide +kernel

/-- A run that comes to the search. -/
theorem solve_describes_iff_lockedDoor :
    (usedRun Verification.lockedDoorFile).1 = .ok (lockedDoorReport idleCheck) ∧
      ∃ directory prepared,
        FileTree.createDirectories (usedWorld Verification.lockedDoorFile).files ⟨"out"⟩ =
          .ok prepared ∧
        prepared.resolve ⟨"out"⟩ = .ok directory ∧
        (Describes (lockedDoorSettings "controller.lp") directory (lockedDoorReport idleCheck)
            (usedRun Verification.lockedDoorFile).2.solver.exchanges
            (usedRun Verification.lockedDoorFile).2.files ↔
          NothingForeign (lockedDoorSettings "controller.lp") directory (lockedDoorReport idleCheck)
            (usedRun Verification.lockedDoorFile).2.solver.exchanges prepared) := by
  have hrun := (solve_describes_iff (lockedDoorSettings "controller.lp") Solver.scripted []
    (usedWorld Verification.lockedDoorFile) onlyReplies_scripted (by simp) (by decide)).record
  rw [World.files_withoutRecord, ← usedRun] at hrun
  obtain ⟨directory, prepared, hcreate, hresolve, -, hiff, -⟩ := hrun _ usedRun_lockedDoor
  exact ⟨usedRun_lockedDoor, directory, prepared, hcreate, hresolve, hiff⟩

/-- The task of a door that is open from the start. -/
def openDoorFile : String :=
  "begin_variable\ndoor\n-1\n2\nclosed\nopen\nend_variable\n" ++
  "begin_state\n1\nend_state\nbegin_goal\n1\n0 1\nend_goal\n"

theorem usedRun_openDoor :
    ((usedRun openDoorFile).1.toOption.map SolveReport.outcome,
      (usedRun openDoorFile).2.solver.exchanges.map Exchange.call,
      FileTree.namesIn (usedRun openDoorFile).2.files ["door", "out"]) =
    (some .trivial, [], ["clingo_out_7.out", "unsat.out", "output.sas"]) := by
  decide +kernel

theorem resolve_usedWorld (text : String) :
    (FileTree.createDirectories (usedWorld text).files ⟨"out"⟩ >>= (·.resolve ⟨"out"⟩)) =
      .ok ["door", "out"] :=
  rfl

/-- A run whose goal holds initially leaves the outputs and the mark of earlier runs. -/
theorem not_forall_describes :
    ¬ ∀ (σ : Type) (s : Settings) (solver : Solver σ) (providers : List (ConstraintProvider σ))
        (world : World σ), solver.OnlyReplies →
        (∀ provider ∈ providers, provider.OnlyReplies) → Proper world.files.workingDirectory →
        Traced (solve s solver.recorded (providers.map ConstraintProvider.withRecord))
          (solve s solver providers) world fun result after made =>
            ∀ report, result = .ok report → ∃ directory prepared,
              world.files.createDirectories s.output.directory = .ok prepared ∧
              prepared.resolve s.output.directory = .ok directory ∧
              Describes s directory report made after.files := by
  intro hall
  have hdescribes := (hall _ (lockedDoorSettings "controller.lp") Solver.scripted []
    (usedWorld openDoorFile) onlyReplies_scripted (by simp) (by decide)).record
  obtain ⟨houtcome, hrest⟩ := Prod.mk.inj usedRun_openDoor
  obtain ⟨hcalls, hnames⟩ := Prod.mk.inj hrest
  obtain ⟨report, hreport, houtcome⟩ := Option.map_eq_some_iff.mp houtcome
  obtain ⟨directory, prepared, hcreate, hresolve, h⟩ :=
    hdescribes report (Fallible.toOption_eq_some.mp hreport)
  obtain rfl : directory = ["door", "out"] :=
    Except.ok.inj (hresolve.symm.trans ((congrArg (· >>= _) hcreate).symm.trans
      (resolve_usedWorld openDoorFile)))
  have hold : "clingo_out_7.out" ∈ FileTree.namesIn (usedRun openDoorFile).2.files
      ["door", "out"] := by
    rw [hnames]
    exact List.mem_cons_self
  obtain ⟨-, ⟨x, hx, -⟩ | ⟨-, hmarked⟩⟩ := (h.outputs _ 7 (by decide)).mp hold
  · exact absurd (List.mem_map_of_mem hx) (hcalls ▸ List.not_mem_nil)
  · exact nomatch houtcome.symm.trans hmarked

end StrongCyclic.Synthesis
