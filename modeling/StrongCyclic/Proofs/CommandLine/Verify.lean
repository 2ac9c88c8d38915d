import StrongCyclic.CommandLine.Run
import StrongCyclic.Proofs.Run.Reports

/-!
The command that verifies runs. Unless a check crashes, it comes to its last line, and this is the line
of success just if every directory, taken by itself before the command, has a run that is found sound.
So after the line of success each directory has one. A run whose last attempt ran out of time is found
sound without a controller, so the line does not say that there is one.
-/

namespace StrongCyclic.CommandLine

open Dialogue Job RunDirectory

variable {α β : Type} {world between after : World Unit}

/-! ### How dialogues end -/

namespace Dialogue

/-- The dialogue ends with the result `a` in the world `after`, and on the way it prints the texts, the
last one first. -/
def Says (dialogue : Dialogue α) (world : World Unit) (a : α) (texts : List String)
    (after : World Unit) : Prop :=
  ∀ printed, (dialogue.run.run printed).run world = ((.ok a, texts ++ printed), after)

/-- The dialogue ends with the result `a` in the world `after`, whatever it prints. -/
def Completes (dialogue : Dialogue α) (world : World Unit) (a : α) (after : World Unit) : Prop :=
  ∃ texts, Says dialogue world a texts after

/-- The dialogue ends in the world `after`, and the last text that it prints is `text`. -/
def Concludes (dialogue : Dialogue Unit) (world : World Unit) (text : String)
    (after : World Unit) : Prop :=
  ∃ texts, Says dialogue world () (text :: texts) after

/-- The dialogue ends in a crash. -/
def Crashes (dialogue : Dialogue α) (world : World Unit) : Prop :=
  ∃ trouble, trouble.crash? ≠ none ∧
    ∀ printed, ((dialogue.run.run printed).run world).1.1 = .error trouble

theorem concludes_print (text : String) (world : World Unit) :
    Concludes (print text) world (text ++ "\n") world :=
  ⟨[], fun _ => rfl⟩

theorem completes_print (text : String) (world : World Unit) :
    Completes (print text) world () world :=
  ⟨[text ++ "\n"], fun _ => rfl⟩

theorem completes_pure (a : α) (world : World Unit) : Completes (pure a) world a world :=
  ⟨[], fun _ => rfl⟩

theorem completes_perform {job : Job Unit Trouble α} {a : α} (h : Returns job world a after) :
    Completes (perform job) world a after := by
  refine ⟨[], fun printed => ?_⟩
  change (((job.run.run world).1, printed), (job.run.run world).2) = _
  rw [h]
  rfl

theorem Says.bind {dialogue : Dialogue α} {next : α → Dialogue β} {a : α} {b : β}
    {texts more : List String} (h : Says dialogue world a texts between)
    (hnext : Says (next a) between b more after) :
    Says (dialogue >>= next) world b (more ++ texts) after := by
  intro printed
  rw [List.append_assoc, ← hnext, ExceptT.run_bind, StateT.run_bind, StateT.run_bind, h]
  rfl

theorem Completes.bind {dialogue : Dialogue α} {next : α → Dialogue β} {a : α} {b : β}
    (h : Completes dialogue world a between) (hnext : Completes (next a) between b after) :
    Completes (dialogue >>= next) world b after := by
  obtain ⟨texts, hsays⟩ := h
  obtain ⟨more, hmore⟩ := hnext
  exact ⟨more ++ texts, hsays.bind hmore⟩

theorem Completes.concludes {dialogue : Dialogue α} {next : α → Dialogue Unit} {a : α}
    {text : String} (h : Completes dialogue world a between)
    (hnext : Concludes (next a) between text after) :
    Concludes (dialogue >>= next) world text after := by
  obtain ⟨texts, hsays⟩ := h
  obtain ⟨more, hmore⟩ := hnext
  exact ⟨more ++ texts, hsays.bind hmore⟩

theorem crashes_perform {job : Job Unit Trouble α} {trouble : Trouble}
    (h : job.run.run world = (.error trouble, after)) (hcrash : trouble.crash? ≠ none) :
    Crashes (perform job) world := by
  refine ⟨trouble, hcrash, fun printed => ?_⟩
  change (job.run.run world).1 = .error trouble
  rw [h]

theorem Crashes.bind {dialogue : Dialogue α} {next : α → Dialogue β} (h : Crashes dialogue world) :
    Crashes (dialogue >>= next) world := by
  obtain ⟨trouble, hcrash, hends⟩ := h
  refine ⟨trouble, hcrash, fun printed => ?_⟩
  rw [ExceptT.run_bind, StateT.run_bind, StateT.run_bind]
  obtain ⟨⟨result, texts⟩, between, hrun⟩ :
      ∃ ended between, (dialogue.run.run printed).run world = (ended, between) := ⟨_, _, rfl⟩
  obtain rfl : result = .error trouble := by simpa [hrun] using hends printed
  rw [hrun]
  rfl

theorem Completes.crashes {dialogue : Dialogue α} {next : α → Dialogue β} {a : α}
    (h : Completes dialogue world a between) (hnext : Crashes (next a) between) :
    Crashes (dialogue >>= next) world := by
  obtain ⟨texts, hprints⟩ := h
  obtain ⟨trouble, hcrash, hends⟩ := hnext
  refine ⟨trouble, hcrash, fun printed => ?_⟩
  rw [ExceptT.run_bind, StateT.run_bind, StateT.run_bind, hprints]
  exact hends (texts ++ printed)

/-- The last text is determined. -/
theorem Concludes.unique {dialogue : Dialogue Unit} {text text' : String} {last : World Unit}
    (h : Concludes dialogue world text after) (h' : Concludes dialogue world text' last) :
    text = text' := by
  obtain ⟨texts, hfirst⟩ := h
  obtain ⟨texts', hlast⟩ := h'
  have hprinted := congrArg (·.1.2) ((hfirst []).symm.trans (hlast []))
  exact (List.cons.inj hprinted).1

theorem Concludes.not_crashes {dialogue : Dialogue Unit} {text : String}
    (h : Concludes dialogue world text after) : ¬ Crashes dialogue world := by
  rintro ⟨trouble, -, hends⟩
  obtain ⟨texts, hfirst⟩ := h
  have hresult := hends []
  rw [hfirst] at hresult
  cases hresult

/-- One dialogue after the other, each of which keeps a property of the world. -/
theorem completes_forM {P : World Unit → Prop} {f : α → Dialogue Unit} {as : List α}
    (hstep : ∀ a ∈ as, ∀ world, P world → ∃ after, Completes (f a) world () after ∧ P after)
    (hworld : P world) : ∃ after, Completes (as.forM f) world () after ∧ P after := by
  induction as generalizing world with
  | nil => exact ⟨world, completes_pure () world, hworld⟩
  | cons a as ih =>
    obtain ⟨hfirst, hrest⟩ := List.forall_mem_cons.mp hstep
    obtain ⟨between, hcompletes, hbetween⟩ := hfirst world hworld
    obtain ⟨after, hmore, hafter⟩ := ih hrest hbetween
    exact ⟨after, hcompletes.bind hmore, hafter⟩

/-- A loop whose steps leave the world as it is. -/
theorem completes_forIn {as : List α} {body : α → PUnit → Dialogue (ForInStep PUnit)}
    (hbody : ∀ a ∈ as, Completes (body a ⟨⟩) world (.yield ⟨⟩) world) :
    Completes (forIn as ⟨⟩ body) world ⟨⟩ world := by
  induction as with
  | nil => exact completes_pure _ world
  | cons a as ih =>
    obtain ⟨hfirst, hrest⟩ := List.forall_mem_cons.mp hbody
    rw [List.forIn_cons]
    exact hfirst.bind (ih hrest)

end Dialogue

/-! ### Checking the directories -/

/-- The job that checks a directory among others. -/
def settledCheck (directory : Path) : Job Unit Trouble (Except Trouble RunCheck) :=
  settle (within (.checkingRun directory) (check directory))

theorem completes_check_or (directory : Path) (world : World Unit) :
    (∃ result after, Completes (perform (settledCheck directory)) world result after ∧
        (∀ found, result = .ok found ↔ Reports world.files directory found) ∧
        SameRuns world.files after.files) ∨
      Crashes (perform (settledCheck directory)) world := by
  rcases hrun : (check directory).run.run world with ⟨result, after⟩
  have hwithin : (within (.checkingRun directory) (check directory)).run.run world =
      (result.mapError (Trouble.during (.checkingRun directory)), after) := by
    rw [within, run_mapError, hrun]
  by_cases hcalm : ∀ trouble,
      result.mapError (Trouble.during (.checkingRun directory)) = .error trouble →
        trouble.crash? = none
  · refine .inl ⟨_, after, completes_perform (returns_settle hwithin hcalm), fun found => ?_, ?_⟩
    · rw [Fallible.mapError_eq_ok, ← check_returns_iff]
      constructor
      · rintro rfl
        exact ⟨after, hrun⟩
      · rintro ⟨_, hreturns⟩
        exact (Prod.mk.inj (hrun.symm.trans hreturns)).1
    · have hsame := maintains_check_sameRuns directory world (.refl world.files)
      rwa [hrun] at hsame
  · obtain ⟨trouble, htrouble, hcrash⟩ : ∃ trouble,
        result.mapError (Trouble.during (.checkingRun directory)) = .error trouble ∧
          trouble.crash? ≠ none := by
      simpa using hcalm
    exact .inr (crashes_perform (run_settle_of_crash (htrouble ▸ hwithin) hcrash) hcrash)

/-- The results are those of checks of the directories, each by itself in the tree. -/
def Checked (tree : FileTree) (directories : List Path)
    (results : List (Except Trouble RunCheck)) : Prop :=
  List.Forall₂ (fun directory result => ∀ found,
    result = .ok found ↔ Reports tree directory found) directories results

/-- Each directory is checked as if it were the only one. -/
theorem completes_checkAll_or (directories : List Path) (world : World Unit) :
    (∃ results after, Completes (checkAll directories) world results after ∧
        Checked world.files directories results ∧ SameRuns world.files after.files) ∨
      Crashes (checkAll directories) world := by
  induction directories generalizing world with
  | nil => exact .inl ⟨[], world, completes_pure [] world, .nil, .refl _⟩
  | cons directory directories ih =>
    obtain ⟨result, between, hcheck, hresult, hsame⟩ | hcrashes :=
      completes_check_or directory world
    · obtain ⟨results, after, hcompletes, hresults, hmore⟩ | hcrashes := ih between
      · refine .inl ⟨result :: results, after,
          hcheck.bind (hcompletes.bind (completes_pure _ after)),
          .cons hresult (hresults.imp fun other result h found => ?_), hsame.trans hmore⟩
        exact (h found).trans ⟨.congr hsame.symm, .congr hsame⟩
      · exact .inr (hcheck.crashes hcrashes.bind)
    · exact .inr hcrashes.bind

theorem reports_of_mem {tree : FileTree} {directories : List Path}
    {results : List (Except Trouble RunCheck)} (h : Checked tree directories results)
    {found : RunCheck} (hmem : .ok found ∈ results) : Reports tree found.directory found := by
  induction h with
  | nil => cases hmem
  | cons hresult _ ih =>
    obtain rfl | hmem := List.mem_cons.mp hmem
    · have hreports := (hresult found).mp rfl
      exact hreports.directory_eq.symm ▸ hreports
    · exact ih hmem

/-! ### Showing details -/

/-- The details of a run can be shown if its check returns. -/
theorem completes_showDetails (t : Terminal) {directory : Path} {start : FileTree}
    {found : RunCheck} (hreports : Reports start directory found)
    (hsame : SameRuns start world.files) :
    ∃ after, Completes (showDetails t directory) world () after ∧ SameRuns start after.files := by
  have hkeeps {rebuilt : Option (Controller × Task)} (h : Rebuilds start directory rebuilt) :
      ∃ after, Returns (rebuild directory) world rebuilt after ∧ SameRuns start after.files := by
    obtain ⟨after, hrebuild⟩ := (h.congr hsame).returns
    exact ⟨after, hrebuild, (maintains_rebuild_sameRuns _).keeps hrebuild hsame⟩
  cases hreports with
  | timedOut rebuilt _ =>
    obtain ⟨after, hrebuild, hafter⟩ := hkeeps rebuilt
    exact ⟨after, (completes_perform hrebuild).bind (completes_pure () after), hafter⟩
  | @verified c task v rebuilt verdict _ =>
    obtain ⟨after, hrebuild, hafter⟩ := hkeeps rebuilt
    have hverdict : Returns (asTrouble (Job.ofExcept
        ((Verification.verify c task).mapError Failure.verification))) after v after :=
      returns_asTrouble.mpr
        (returns_ofExcept.mpr ⟨Fallible.mapError_eq_ok.mpr verdict, rfl⟩)
    refine ⟨after, (completes_perform hrebuild).bind ?_, hafter⟩
    refine (completes_print _ after).bind ((completes_print _ after).bind ?_)
    exact (completes_perform hverdict).bind (completes_print _ after)

/-! ### The last line -/

theorem mem_toList_colored {t : Terminal} {color : Color} {text : String} {c : Char}
    (h : c ∈ text.toList) : c ∈ (t.colored color text).toList := by
  rw [Terminal.colored]
  split_ifs
  · simp [h]
  · exact h

theorem error_ne_success {t : Terminal} {text : String} (h : ',' ∈ text.toList) :
    t.error text ≠ t.success "All controllers are strong-cyclic" := by
  intro heq
  have hcomma : ',' ∈ (t.success "All controllers are strong-cyclic").toList :=
    heq ▸ mem_toList_colored h
  rw [Terminal.success, Terminal.colored] at hcomma
  split_ifs at hcomma
  · exact absurd hcomma (by decide)
  · exact absurd hcomma (by decide)

/-- The line of success says that all runs have been checked and found sound. -/
theorem checksLine_eq_success_iff {t : Terminal} {checks : List RunCheck} {total : Nat} :
    checksLine t checks total = t.success "All controllers are strong-cyclic" ↔
      checks.all (·.sound) = true ∧ checks.length = total := by
  have hsound : (checks.filter (!·.sound)).length = 0 ↔ checks.all (·.sound) = true := by simp
  rw [checksLine, ← hsound]
  split_ifs with hall
  · simp only [hall, and_self]
  · simp only [hall, iff_false]
    exact error_ne_success (by simp)

/-- All runs have been checked and found sound just if each directory reports a sound run. -/
theorem all_sound_iff {tree : FileTree} {directories : List Path}
    {results : List (Except Trouble RunCheck)} (h : Checked tree directories results) :
    (results.filterMap Except.toOption).all (·.sound) = true ∧
        (results.filterMap Except.toOption).length = directories.length ↔
      ∀ directory ∈ directories, ∃ found, Reports tree directory found ∧ found.sound = true := by
  induction h with
  | nil => simp
  | @cons directory result directories results hresult hresults ih =>
    rw [List.forall_mem_cons, ← ih]
    cases result with
    | ok found =>
      have hfound : (∃ other, Reports tree directory other ∧ other.sound = true) ↔
          found.sound = true := by
        simp [← hresult]
      simp [Except.toOption, hfound, and_assoc]
    | error trouble =>
      have hnone : ¬ ∃ other, Reports tree directory other ∧ other.sound = true := by
        simp [← hresult]
      have hshort : (results.filterMap Except.toOption).length ≤ directories.length :=
        hresults.length_eq ▸ List.length_filterMap_le ..
      rw [List.filterMap_cons_none rfl, List.length_cons]
      constructor
      · rintro ⟨-, hlength⟩
        omega
      · exact fun hboth => absurd hboth.1 hnone

/-- Unless it crashes, the command prints last what comes of the checks. -/
theorem concludes_runVerify_or (t : Terminal) (directories : List Path) (details : Bool)
    (world : World Unit) :
    (∃ results after, Checked world.files directories results ∧
        Concludes (runVerify t directories details) world
          (checksLine t (results.filterMap Except.toOption) directories.length ++ "\n") after) ∨
      Crashes (runVerify t directories details) world := by
  obtain ⟨results, between, hchecks, hresults, hsame⟩ | hcrashes :=
    completes_checkAll_or directories world
  case inr => exact .inr ((completes_print _ world).crashes hcrashes.bind)
  have hreports : ∀ found ∈ results.filterMap Except.toOption,
      Reports world.files found.directory found := by
    intro found hfound
    obtain ⟨result, hmem, hresult⟩ := List.mem_filterMap.mp hfound
    rw [Fallible.toOption_eq_some] at hresult
    exact reports_of_mem hresults (hresult ▸ hmem)
  obtain ⟨after, hdetails, -⟩ : ∃ after, Completes
      (((results.filterMap Except.toOption).filter (!·.timedOut)).forM fun found =>
        showDetails t found.directory) between () after ∧ SameRuns world.files after.files :=
    completes_forM (fun found hfound _ hsame =>
      completes_showDetails t (hreports found (List.mem_of_mem_filter hfound)) hsame) hsame
  refine .inl ⟨results, if details then after else between, hresults, ?_⟩
  refine (completes_print _ world).concludes (hchecks.concludes ?_)
  refine (completes_forIn fun result _ => ?_).concludes ((completes_print _ between).concludes ?_)
  · cases result with
    | error trouble => exact (completes_print _ between).bind (completes_pure _ between)
    | ok found => exact completes_pure _ between
  · cases details with
    | true => exact hdetails.concludes (concludes_print _ after)
    | false => exact concludes_print _ between

/-- A run of the command that ends well shows its last line. -/
theorem concludes_of_run {t : Terminal} {directories : List Path} {details : Bool}
    {text : String} {texts : List String}
    (h : (((runVerify t directories details).run.run []).run world).1 = (.ok (), text :: texts)) :
    ∃ after, Concludes (runVerify t directories details) world text after := by
  obtain ⟨results, after, -, hconcludes⟩ | ⟨trouble, -, hends⟩ :=
    concludes_runVerify_or t directories details world
  · obtain ⟨more, hprints⟩ := hconcludes
    rw [hprints] at h
    obtain ⟨rfl, -⟩ := List.cons.inj (Prod.mk.inj h).2
    exact ⟨after, more, hprints⟩
  · have hresult := hends []
    rw [h] at hresult
    cases hresult

/-- The line of success is printed only if each directory by itself has a last output that says that
the time ran out, or a last output from which a controller is rebuilt that is verified
strong-cyclic. -/
theorem runVerify_lastLine {t : Terminal} {directories : List Path} {details : Bool}
    {world after : World Unit}
    (h : Concludes (runVerify t directories details) world
      (t.success "All controllers are strong-cyclic" ++ "\n") after) :
    ∀ directory ∈ directories,
      (∃ file text, LastOutput world.files directory file text ∧
        Text.contains timedOutMark text = true) ∨
      ∃ c task v, Rebuilds world.files directory (some (c, task)) ∧
        Verification.verify c task = .ok v ∧ v.strongCyclic = true := by
  obtain ⟨results, last, hresults, hconcludes⟩ | hcrashes :=
    concludes_runVerify_or t directories details world
  case inr => exact absurd hcrashes h.not_crashes
  have hline := checksLine_eq_success_iff.mp
    ((String.append_left_inj _).mp (hconcludes.unique h))
  intro directory hdirectory
  obtain ⟨-, hnone | hsome⟩ := exists_reports_sound_iff.mp
    ((all_sound_iff hresults).mp hline directory hdirectory)
  · cases hnone with
    | timedOut output marked => exact .inl ⟨_, _, output, marked⟩
  · exact .inr hsome

/-- A terminal without colours. -/
def plainTerminal : Terminal :=
  ⟨some "1", none⟩

/-- The task of a door that is pushed open. -/
def pushTask : String :=
  Text.unlines
    ["begin_variable", "door", "-1", "2", "closed", "open", "end_variable",
      "begin_state", "0", "end_state",
      "begin_goal", "1", "0 1", "end_goal",
      "begin_operator", "push", "0", "1", "0 0 0 1", "1", "end_operator"]

/-- One run directory with the output of an attempt that ran out of time, and one with a controller. -/
def mixedRuns : World Unit where
  files :=
    { entries := [(["late"], .directory),
        (["late", "clingo_out_1.out"], .file "Timed out with time limit=5.\n"),
        (["done"], .directory), (["done", "output.sas"], .file pushTask),
        (["done", "clingo_out_1.out"], .file (Text.unlines ["Answer: 1",
          "holds(0,0,0) holds(1,0,1) policy(0,\"push()\") transition(0,\"e1\",1)",
          "SATISFIABLE"]))]
      workingDirectory := [] }
  solver := ()
  clock := ⟨0⟩

theorem run_mixedRuns :
    (((runVerify plainTerminal [⟨"late"⟩, ⟨"done"⟩] false).run.run []).run mixedRuns).1 =
      (.ok (), ["All controllers are strong-cyclic\n",
        "Verification Summary:\nSound | Timeout | States | Pairs  | Directory\n" ++
          "------|---------|--------|--------|----------\n" ++
          "yes   | yes     |      0 |      0 | late\n" ++
          "yes   | no      |      2 |      2 | done\n\n",
        "Verifying 2 run(s)...\n"]) := by
  decide +kernel

theorem runVerify_lastLine_mixedRuns :
    ∃ after, Concludes (runVerify plainTerminal [⟨"late"⟩, ⟨"done"⟩] false) mixedRuns
        (plainTerminal.success "All controllers are strong-cyclic" ++ "\n") after ∧
      ∀ directory ∈ [(⟨"late"⟩ : Path), ⟨"done"⟩],
        (∃ file text, LastOutput mixedRuns.files directory file text ∧
          Text.contains timedOutMark text = true) ∨
        ∃ c task v, Rebuilds mixedRuns.files directory (some (c, task)) ∧
          Verification.verify c task = .ok v ∧ v.strongCyclic = true := by
  obtain ⟨after, hconcludes⟩ := concludes_of_run run_mixedRuns
  exact ⟨after, hconcludes, runVerify_lastLine hconcludes⟩

/-- A run directory that holds nothing but the output of an attempt that ran out of time. -/
def outOfTimeWorld : World Unit where
  files :=
    { entries := [(["run"], .directory),
        (["run", "clingo_out_1.out"], .file "Timed out with time limit=5.\n")]
      workingDirectory := [] }
  solver := ()
  clock := ⟨0⟩

theorem rebuilds_outOfTimeWorld : Rebuilds outOfTimeWorld.files ⟨"run"⟩ none := by
  have houtput : LastOutput outOfTimeWorld.files ⟨"run"⟩ ⟨"run/clingo_out_1.out"⟩
      "Timed out with time limit=5.\n" :=
    ⟨["clingo_out_1.out"], "clingo_out_1.out", by decide +kernel, by decide +kernel,
      by decide +kernel, by decide +kernel⟩
  exact .timedOut houtput (by decide +kernel)

theorem run_outOfTimeWorld :
    (((runVerify plainTerminal [⟨"run"⟩] false).run.run []).run outOfTimeWorld).1 =
      (.ok (), ["All controllers are strong-cyclic\n",
        "Verification Summary:\nSound | Timeout | States | Pairs  | Directory\n" ++
          "------|---------|--------|--------|----------\n" ++
          "yes   | yes     |      0 |      0 | run\n\n",
        "Verifying 1 run(s)...\n"]) := by
  decide +kernel

/-- The line of success may be printed although no controller has been rebuilt. -/
theorem not_forall_rebuilt :
    ¬ ∀ (t : Terminal) (directories : List Path) (details : Bool) (world after : World Unit),
      Concludes (runVerify t directories details) world
          (t.success "All controllers are strong-cyclic" ++ "\n") after →
        ∀ directory ∈ directories, ∃ c task v,
          Rebuilds world.files directory (some (c, task)) ∧ Verification.verify c task = .ok v ∧
            v.strongCyclic = true := by
  intro hall
  obtain ⟨after, hconcludes⟩ := concludes_of_run run_outOfTimeWorld
  obtain ⟨c, task, v, hrebuilt, -⟩ :=
    hall plainTerminal [⟨"run"⟩] false outOfTimeWorld after hconcludes ⟨"run"⟩ (by simp)
  exact nomatch rebuilds_outOfTimeWorld.unique hrebuilt

end StrongCyclic.CommandLine
