import StrongCyclic.Proofs.Run.Record

/-!
What the check of a run goes by, read off the files before it: the output of the largest attempt, the
planning task, and whether the files of the check can be written. `Rebuilds` says which controller is
rebuilt and `Reports` what a check returns. The files that a check writes are none that a check goes
by, so checks of any directories, one after the other, return what each of them returns at first. In
a directory with a planning task and attempts the largest attempt decides: unless its output says that
the time ran out, the check is the one in memory.
-/

namespace StrongCyclic.RunDirectory

open Fallible FileTree Job

variable {σ : Type} {directory path : Path} {name text : String} {before between after : FileTree}
  {world : World σ}

/-! ### What checks leave alone -/

/-- The names of the files that a check writes. -/
def checkFiles : List String :=
  [FileNames.controllerText, FileNames.controllerGraph, FileNames.verification]

/-- From one tree to another nothing has changed that a check goes by. -/
structure SameRuns (before after : FileTree) : Prop where
  kept : ∀ above name, name ∉ checkFiles →
    after.entry? (above ++ [name]) = before.entry? (above ++ [name])
  directories : ∀ place, after.entry? place = some .directory ↔ before.entry? place = some .directory
  attempts : ∀ place, attempts (after.namesIn place) = attempts (before.namesIn place)
  workingDirectory : after.workingDirectory = before.workingDirectory

theorem attempts_namesIn_put {tree : FileTree} {above place : Place} {entry : Entry}
    (hname : FileNames.attemptSize? name = none) :
    attempts ((tree.put (above ++ [name]) entry).namesIn place) =
      attempts (tree.namesIn place) := by
  obtain ⟨more, hnames, hmore⟩ := exists_namesIn_put tree (above ++ [name]) place entry
  rw [hnames, attempts, List.filterMap_append, ← attempts, List.append_right_eq_self,
    List.filterMap_eq_nil_iff]
  intro other hother
  obtain ⟨-, hlast⟩ := List.append_inj' (hmore other hother) rfl
  rw [← List.singleton_inj.mp hlast, hname, Option.map_none]

namespace SameRuns

theorem refl (tree : FileTree) : SameRuns tree tree :=
  ⟨fun _ _ _ => rfl, fun _ => Iff.rfl, fun _ => rfl, rfl⟩

theorem trans (h : SameRuns before between) (hmore : SameRuns between after) :
    SameRuns before after where
  kept above name hname := (hmore.kept above name hname).trans (h.kept above name hname)
  directories place := (hmore.directories place).trans (h.directories place)
  attempts place := (hmore.attempts place).trans (h.attempts place)
  workingDirectory := hmore.workingDirectory.trans h.workingDirectory

theorem symm (h : SameRuns before after) : SameRuns after before where
  kept above name hname := (h.kept above name hname).symm
  directories place := (h.directories place).symm
  attempts place := (h.attempts place).symm
  workingDirectory := h.workingDirectory.symm

/-- The files of a check may be written in any directory. -/
theorem write (hname : name ∈ checkFiles) (h : before.write (path.join name) text = .ok after) :
    SameRuns before after := by
  have hnames : ∀ name ∈ checkFiles, IsEntryName name ∧ FileNames.attemptSize? name = none := by
    decide
  obtain ⟨hentry, hsize⟩ := hnames name hname
  obtain ⟨place, hfile, h⟩ := bind_eq_ok.mp h
  cases h
  obtain ⟨above, rfl⟩ := exists_of_resolve_join hentry (resolve_of_filePlace hfile)
  have htouches : Touches above {name} before (before.put (above ++ [name]) (.file text)) :=
    .put (entry?_of_filePlace hfile)
  refine ⟨fun other otherName hother => htouches.kept _ fun _ hmem heq => ?_,
    htouches.directories, fun place => attempts_namesIn_put hsize, htouches.workingDirectory⟩
  obtain rfl := Set.mem_singleton_iff.mp hmem
  obtain ⟨-, hlast⟩ := List.append_inj' heq rfl
  exact hother (List.singleton_inj.mp hlast ▸ hname)

/-! Each statement holds after the change if it has held before; by symmetry these are equivalences. -/

theorem resolve {target : Place} (h : SameRuns before after) :
    after.resolve path = .ok target ↔ before.resolve path = .ok target :=
  resolve_congr h.directories h.workingDirectory

theorem writable (h : SameRuns before after) (hbefore : before.Writable path) :
    after.Writable path := by
  obtain ⟨place, hresolve, hfree⟩ := hbefore
  exact ⟨place, h.resolve.mpr hresolve, mt (h.directories place).mp hfree⟩

theorem read_join (h : SameRuns before after) (hentry : IsEntryName name)
    (hname : name ∉ checkFiles) (hbefore : before.read (path.join name) = .ok text) :
    after.read (path.join name) = .ok text := by
  obtain ⟨place, hresolve, hfile⟩ := read_eq_ok.mp hbefore
  obtain ⟨above, rfl⟩ := exists_of_resolve_join hentry hresolve
  exact read_eq_ok.mpr ⟨_, h.resolve.mpr hresolve, (h.kept above name hname).trans hfile⟩

theorem list {names : List String} (h : SameRuns before after)
    (hbefore : before.list path = .ok names) :
    ∃ names', after.list path = .ok names' ∧
      RunDirectory.attempts names' = RunDirectory.attempts names := by
  obtain ⟨⟨place, entry⟩, hlocate, hnames⟩ := bind_eq_ok.mp hbefore
  obtain ⟨hresolve, hentry⟩ := locate_eq_ok.mp hlocate
  cases entry with
  | file text => cases hnames
  | directory =>
    cases hnames
    refine ⟨after.namesIn place, bind_eq_ok.mpr ⟨(place, .directory), ?_, rfl⟩, h.attempts place⟩
    exact locate_eq_ok.mpr ⟨h.resolve.mpr hresolve, (h.directories place).mpr hentry⟩

end SameRuns

/-! ### What checks return -/

/-- The file is the output of the largest attempt of the run and has this text. -/
def LastOutput (tree : FileTree) (directory file : Path) (text : String) : Prop :=
  ∃ names name, tree.list directory = .ok names ∧ largestAttempt? names = some name ∧
    directory.join name = file ∧ tree.read file = .ok text

/-- What is rebuilt from a run directory: no controller, since its last attempt ran out of time, or the
controller of the last answer with the planning task. -/
inductive Rebuilds (tree : FileTree) (directory : Path) : Option (Controller × Task) → Prop
  | timedOut {file : Path} {text : String} (output : LastOutput tree directory file text)
      (marked : Text.contains timedOutMark text = true) : Rebuilds tree directory none
  | built {file : Path} {text taskText : String} {answer : Answer} {task : Task} {c : Controller}
      (output : LastOutput tree directory file text)
      (unmarked : Text.contains timedOutMark text = false)
      (settled : settledAnswer file text = .ok answer)
      (read : tree.read (directory.join FileNames.task) = .ok taskText)
      (parsed : Sas.parse taskText = .ok task)
      (made : Controller.ofAnswer answer task.vars.length = .ok c)
      (writable : ∀ name ∈ [FileNames.controllerText, FileNames.controllerGraph],
        tree.Writable (directory.join name)) : Rebuilds tree directory (some (c, task))

/-- What the check of a run directory returns. -/
inductive Reports (tree : FileTree) (directory : Path) : RunCheck → Prop
  | timedOut (rebuilt : Rebuilds tree directory none)
      (writable : tree.Writable (directory.join FileNames.verification)) :
      Reports tree directory (.ofTimeOut directory)
  | verified {c : Controller} {task : Task} {v : Verification.Verdict}
      (rebuilt : Rebuilds tree directory (some (c, task)))
      (verdict : Verification.verify c task = .ok v)
      (writable : tree.Writable (directory.join FileNames.verification)) :
      Reports tree directory (.ofVerdict directory c v)

theorem Reports.directory_eq {tree : FileTree} {result : RunCheck}
    (h : Reports tree directory result) : result.directory = directory := by
  cases h <;> rfl

/-- A check finds a run sound if its last attempt ran out of time or if its controller is. -/
theorem exists_reports_sound_iff {tree : FileTree} :
    (∃ result, Reports tree directory result ∧ result.sound = true) ↔
      tree.Writable (directory.join FileNames.verification) ∧
      (Rebuilds tree directory none ∨
        ∃ c task v, Rebuilds tree directory (some (c, task)) ∧
          Verification.verify c task = .ok v ∧ v.strongCyclic = true) := by
  constructor
  · rintro ⟨result, hreports, hsound⟩
    cases hreports with
    | timedOut rebuilt writable => exact ⟨writable, .inl rebuilt⟩
    | verified rebuilt verdict writable =>
      exact ⟨writable, .inr ⟨_, _, _, rebuilt, verdict, hsound⟩⟩
  · rintro ⟨writable, rebuilt | ⟨c, task, v, rebuilt, verdict, hsound⟩⟩
    · exact ⟨_, .timedOut rebuilt writable, rfl⟩
    · exact ⟨_, .verified rebuilt verdict writable, hsound⟩

section Same

variable (h : SameRuns before after)

include h

theorem LastOutput.congr {file : Path} (hbefore : LastOutput before directory file text) :
    LastOutput after directory file text := by
  obtain ⟨names, name, hlist, hlargest, rfl, hread⟩ := hbefore
  obtain ⟨names', hlist', hattempts⟩ := h.list hlist
  have hlargest' : largestAttempt? names' = some name := by
    rw [largestAttempt?, hattempts, ← largestAttempt?, hlargest]
  obtain ⟨-, size, hsize, -⟩ := exists_of_largestAttempt? hlargest
  have hname : name ∉ checkFiles := by
    have hnone : ∀ name ∈ checkFiles, FileNames.attemptSize? name = none := by decide
    exact fun hmem => nomatch hsize.symm.trans (hnone name hmem)
  exact ⟨names', name, hlist', hlargest', rfl,
    h.read_join (FileNames.isEntryName_of_attemptSize? hsize) hname hread⟩

theorem Rebuilds.congr {found : Option (Controller × Task)}
    (hbefore : Rebuilds before directory found) : Rebuilds after directory found := by
  cases hbefore with
  | timedOut output marked => exact .timedOut (output.congr h) marked
  | built output unmarked settled read parsed made writable =>
    exact .built (output.congr h) unmarked settled (h.read_join (by decide) (by decide) read) parsed
      made fun name hname => h.writable (writable name hname)

theorem Reports.congr {result : RunCheck} (hbefore : Reports before directory result) :
    Reports after directory result := by
  cases hbefore with
  | timedOut rebuilt writable => exact .timedOut (rebuilt.congr h) (h.writable writable)
  | verified rebuilt verdict writable =>
    exact .verified (rebuilt.congr h) verdict (h.writable writable)

end Same

/-! ### Jobs -/

theorem returns_lastOutput {file : Path} {world after : World σ} :
    Returns (lastOutput directory) world file after ↔
      (∃ names name, world.files.list directory = .ok names ∧
        largestAttempt? names = some name ∧ directory.join name = file) ∧ world = after := by
  rw [lastOutput, returns_bind]
  constructor
  · rintro ⟨names, between, hquery, hrest⟩
    obtain ⟨hlist, rfl⟩ := returns_query.mp (returns_duringFile.mp hquery)
    split at hrest
    · next name hname =>
      obtain ⟨rfl, rfl⟩ := returns_pure.mp hrest
      exact ⟨⟨names, name, hlist, hname, rfl⟩, rfl⟩
    · exact absurd hrest not_returns_throw
  · rintro ⟨⟨names, name, hlist, hname, rfl⟩, rfl⟩
    refine ⟨names, world, returns_duringFile.mpr (returns_query.mpr ⟨hlist, rfl⟩), ?_⟩
    rw [hname]
    exact returns_pure.mpr ⟨rfl, rfl⟩

theorem returns_write {note : Note} :
    (∃ after, Returns (duringFile note (change (·.write path text))) world () after) ↔
      world.files.Writable path := by
  rw [← exists_write_iff]
  simp only [returns_duringFile, returns_change]
  exact ⟨fun ⟨_, files, h, _⟩ => ⟨files, h⟩, fun ⟨files, h⟩ => ⟨_, files, h, rfl⟩⟩

theorem sameRuns_of_write {note : Note} {u : Unit} {after : World σ} (hname : name ∈ checkFiles)
    (h : Returns (duringFile note (change (·.write (path.join name) text))) world u after) :
    SameRuns world.files after.files := by
  obtain ⟨files, hfiles, rfl⟩ := returns_change.mp (returns_duringFile.mp h)
  exact .write hname hfiles

theorem returns_writeController {c : Controller} {vars : List Variable} :
    (∃ after, Returns (writeController directory c vars) world () after) ↔
      ∀ name ∈ [FileNames.controllerText, FileNames.controllerGraph],
        world.files.Writable (directory.join name) := by
  simp only [writeController, returns_bind, List.forall_mem_cons, List.not_mem_nil,
    false_implies, implies_true, and_true]
  constructor
  · rintro ⟨after, _, between, hfirst, hsecond⟩
    have hsame := sameRuns_of_write (by decide) hfirst
    exact ⟨returns_write.mp ⟨_, hfirst⟩, hsame.symm.writable (returns_write.mp ⟨_, hsecond⟩)⟩
  · rintro ⟨hfirst, hsecond⟩
    obtain ⟨between, hfirst⟩ := returns_write.mpr hfirst
    have hsame := sameRuns_of_write (by decide) hfirst
    obtain ⟨after, hsecond⟩ := returns_write.mpr (hsame.writable hsecond)
    exact ⟨after, (), between, hfirst, hsecond⟩

theorem rebuilds_of_returns {found : Option (Controller × Task)} {after : World σ}
    (h : Returns (rebuild directory) world found after) :
    Rebuilds world.files directory found := by
  obtain ⟨file, _, hfile, h⟩ := returns_bind.mp h
  obtain ⟨⟨names, name, hlist, hname, hjoin⟩, rfl⟩ := returns_lastOutput.mp hfile
  obtain ⟨output, _, hquery, h⟩ := returns_bind.mp h
  obtain ⟨hread, rfl⟩ := returns_query.mp (returns_duringFile.mp hquery)
  have houtput : LastOutput world.files directory file output :=
    ⟨names, name, hlist, hname, hjoin, hread⟩
  split_ifs at h with hmark
  · obtain ⟨rfl, -⟩ := returns_pure.mp h
    exact .timedOut houtput hmark
  obtain ⟨answer, _, hsettled, h⟩ := returns_bind.mp h
  obtain ⟨hanswer, rfl⟩ := returns_ofExcept.mp hsettled
  obtain ⟨task, _, hload, h⟩ := returns_bind.mp h
  obtain ⟨⟨text, htask, hparse⟩, rfl⟩ := loadTask_returns hload
  obtain ⟨c, _, hmade, h⟩ := returns_bind.mp h
  obtain ⟨hbuild, rfl⟩ := returns_ofExcept.mp (returns_during.mp hmade)
  obtain ⟨_, between, hwrite, h⟩ := returns_bind.mp h
  obtain ⟨rfl, -⟩ := returns_pure.mp h
  exact .built houtput (Bool.eq_false_iff.mpr hmark) hanswer htask hparse
    (mapError_eq_ok.mp hbuild) (returns_writeController.mp ⟨between, hwrite⟩)

theorem returns_of_lastOutput {α : Type} {file : Path} {next : Path → String → Job σ Trouble α}
    {a : α} {after : World σ} (h : LastOutput world.files directory file text)
    (hnext : Returns (next file text) world a after) :
    Returns (do
      let file ← lastOutput directory
      let text ← duringFile (.reading file) (query (·.read file))
      next file text) world a after := by
  obtain ⟨names, name, hlist, hname, hjoin, hread⟩ := h
  have hfile := returns_lastOutput.mpr ⟨⟨names, name, hlist, hname, hjoin⟩, rfl⟩
  have hquery : Returns (duringFile (.reading file) (query (·.read file))) world text world :=
    returns_duringFile.mpr (returns_query.mpr ⟨hread, rfl⟩)
  exact returns_bind.mpr ⟨file, world, hfile, returns_bind.mpr ⟨text, world, hquery, hnext⟩⟩

theorem Rebuilds.returns {found : Option (Controller × Task)}
    (h : Rebuilds world.files directory found) :
    ∃ after, Returns (rebuild directory) world found after := by
  cases h with
  | timedOut output marked =>
    refine ⟨world, returns_of_lastOutput output ?_⟩
    rw [if_pos marked]
    exact returns_pure.mpr ⟨rfl, rfl⟩
  | @built file text taskText answer task c output unmarked settled read parsed made writable =>
    obtain ⟨after, hwrite⟩ := returns_writeController.mpr writable
    refine ⟨after, returns_of_lastOutput output ?_⟩
    rw [if_neg (Bool.eq_false_iff.mp unmarked)]
    refine returns_bind.mpr ⟨answer, world, returns_ofExcept.mpr ⟨settled, rfl⟩, ?_⟩
    refine returns_bind.mpr ⟨task, world, returns_bind.mpr ⟨taskText, world, ?_, ?_⟩, ?_⟩
    · exact returns_duringFile.mpr (returns_query.mpr ⟨read, rfl⟩)
    · exact returns_during.mpr (returns_ofExcept.mpr ⟨mapError_eq_ok.mpr parsed, rfl⟩)
    refine returns_bind.mpr ⟨c, world, ?_, ?_⟩
    · exact returns_during.mpr (returns_ofExcept.mpr ⟨mapError_eq_ok.mpr made, rfl⟩)
    exact returns_bind.mpr ⟨(), after, hwrite, returns_pure.mpr ⟨rfl, rfl⟩⟩

/-- What is rebuilt from a run is determined by the files. -/
theorem Rebuilds.unique {tree : FileTree} {found found' : Option (Controller × Task)}
    (h : Rebuilds tree directory found) (h' : Rebuilds tree directory found') :
    found = found' := by
  have hreturns {found : Option (Controller × Task)} (h : Rebuilds tree directory found) :
      ∃ after, Returns (rebuild directory) (⟨tree, (), ⟨0⟩⟩ : World Unit) found after :=
    h.returns
  obtain ⟨after, hfound⟩ := hreturns h
  obtain ⟨after', hfound'⟩ := hreturns h'
  exact Except.ok.inj (Prod.mk.inj (hfound.symm.trans hfound')).1

section Steps

variable {start : FileTree}

theorem sameRuns_change (hname : name ∈ checkFiles) (world : World σ) (files : FileTree)
    (h : world.files.write (directory.join name) text = .ok files)
    (hstart : SameRuns start world.files) : SameRuns start files :=
  hstart.trans (.write hname h)

theorem sameRuns_change_controller {text : String}
    (hname : name ∈ [FileNames.controllerText, FileNames.controllerGraph]) (world : World σ)
    (files : FileTree) (h : world.files.write (directory.join name) text = .ok files)
    (hstart : SameRuns start world.files) : SameRuns start files :=
  sameRuns_change (List.mem_append_left [FileNames.verification] hname) world files h hstart

theorem maintains_rebuild_sameRuns (directory : Path) :
    Maintains (fun world : World σ => SameRuns start world.files) (rebuild directory) :=
  maintains_rebuild fun _ hname _ => sameRuns_change_controller hname

theorem maintains_judge_sameRuns :
    Maintains (fun world : World σ => SameRuns start world.files) (judge directory) :=
  maintains_judge fun _ hname _ => sameRuns_change_controller hname

/-- However a check ends, it leaves alone what checks go by. -/
theorem maintains_check_sameRuns (directory : Path) :
    Maintains (fun world : World σ => SameRuns start world.files) (check directory) := by
  rw [check_eq]
  refine .bind maintains_judge_sameRuns fun result => ?_
  exact .bind (maintains_change (sameRuns_change (by decide))).mapError fun _ => maintains_pure

end Steps

theorem reports_of_returns {result : RunCheck} {after : World σ}
    (h : Returns (check directory) world result after) : Reports world.files directory result := by
  rw [check_eq] at h
  obtain ⟨judged, between, hjudge, h⟩ := returns_bind.mp h
  obtain ⟨_, last, hwrite, h⟩ := returns_bind.mp h
  obtain ⟨rfl, -⟩ := returns_pure.mp h
  have hsame : SameRuns world.files between.files :=
    maintains_judge_sameRuns.keeps hjudge (.refl _)
  have hwritable := hsame.symm.writable (returns_write.mp ⟨last, hwrite⟩)
  obtain ⟨found, between, hrebuild, h⟩ := returns_bind.mp hjudge
  have hrebuilt := rebuilds_of_returns hrebuild
  split at h
  · obtain ⟨v, _, hverified, h⟩ := returns_bind.mp h
    obtain ⟨hverdict, -⟩ := returns_ofExcept.mp hverified
    obtain ⟨rfl, -⟩ := returns_pure.mp h
    exact .verified hrebuilt (mapError_eq_ok.mp hverdict) hwritable
  · obtain ⟨rfl, -⟩ := returns_pure.mp h
    exact .timedOut hrebuilt hwritable

theorem Reports.returns {result : RunCheck} (h : Reports world.files directory result) :
    ∃ after, Returns (check directory) world result after := by
  have hjudge : ∃ between, Returns (judge directory) world result between := by
    cases h with
    | timedOut rebuilt _ =>
      obtain ⟨between, hrebuild⟩ := rebuilt.returns
      exact ⟨between, returns_bind.mpr ⟨none, between, hrebuild, returns_pure.mpr ⟨rfl, rfl⟩⟩⟩
    | @verified c task v rebuilt verdict _ =>
      obtain ⟨between, hrebuild⟩ := rebuilt.returns
      have hverdict : verdictOf directory c task = .ok v := mapError_eq_ok.mpr verdict
      refine ⟨between, returns_bind.mpr ⟨some (c, task), between, hrebuild, ?_⟩⟩
      exact returns_bind.mpr ⟨v, between, returns_ofExcept.mpr ⟨hverdict, rfl⟩,
        returns_pure.mpr ⟨rfl, rfl⟩⟩
  obtain ⟨between, hjudge⟩ := hjudge
  have hsame : SameRuns world.files between.files :=
    maintains_judge_sameRuns.keeps hjudge (.refl _)
  have hwritable : world.files.Writable (directory.join FileNames.verification) := by
    cases h <;> assumption
  obtain ⟨after, hwrite⟩ := returns_write.mpr (hsame.writable hwritable)
  rw [check_eq]
  exact ⟨after, returns_bind.mpr ⟨result, between, hjudge,
    returns_bind.mpr ⟨(), after, hwrite, returns_pure.mpr ⟨rfl, rfl⟩⟩⟩⟩

/-- A check returns what the files say. -/
theorem check_returns_iff {result : RunCheck} :
    (∃ after, Returns (check directory) world result after) ↔
      Reports world.files directory result :=
  ⟨fun ⟨_, h⟩ => reports_of_returns h, Reports.returns⟩

/-! ### Runs with a planning task and attempts -/

section Attempts

variable {place : Place} {P : Nat → String → Prop}

/-- No attempt in the directory is larger. -/
def IsLargest (directory : Place) (tree : FileTree) (size : Nat) : Prop :=
  ∀ name ∈ tree.namesIn directory, ∀ n, FileNames.attemptSize? name = some n → n ≤ size

theorem LastOutput.exists_largest {tree : FileTree} {file : Path} (hplace : Place.Proper place)
    (hattempts : Attempts place P tree) (h : LastOutput tree (pathOf place) file text) :
    ∃ size, P size text ∧ size < Text.wordLimit ∧ IsLargest place tree size := by
  obtain ⟨names, name, hlist, hlargest, rfl, hread⟩ := h
  obtain ⟨target, hresolve, rfl⟩ := exists_of_list hlist
  obtain rfl := resolve_pathOf hplace hresolve
  obtain ⟨hname, size, hsize, hall⟩ := exists_of_largestAttempt? hlargest
  obtain ⟨-, output, hentry', hP⟩ := hattempts name hname size hsize
  have hentry := entry?_of_read_join hplace (FileNames.isEntryName_of_attemptSize? hsize) hread
  obtain rfl : text = output := by simpa [hentry] using hentry'
  exact ⟨size, hP, FileNames.lt_of_attemptSize? hsize, hall⟩

/-- The check goes by the largest attempt of the directory and by its planning task. -/
theorem check_returns {result : RunCheck} {after : World σ} (hplace : Place.Proper place)
    (htask : HasTask place text world.files) (hattempts : Attempts place P world.files)
    (h : Returns (check (pathOf place)) world result after) :
    ∃ size output, P size output ∧ size < Text.wordLimit ∧ IsLargest place world.files size ∧
      (Text.contains timedOutMark output = true → result = .ofTimeOut (pathOf place)) ∧
      (Text.contains timedOutMark output = false →
        ¬ Unsettled output ∧ RunCheck.inMemory? (pathOf place) text output = some result) := by
  cases reports_of_returns h with
  | timedOut rebuilt _ =>
    cases rebuilt with
    | timedOut output marked =>
      obtain ⟨size, hP, hlt, hlargest⟩ := output.exists_largest hplace hattempts
      exact ⟨size, _, hP, hlt, hlargest, fun _ => rfl, fun h => absurd (marked.symm.trans h) nofun⟩
  | verified rebuilt verdict _ =>
    cases rebuilt with
    | built output unmarked settled read parsed made =>
      obtain ⟨size, hP, hlt, hlargest⟩ := output.exists_largest hplace hattempts
      obtain ⟨out, hout, hlast, hsat⟩ := settledAnswer_eq_ok settled
      have hsame : some (Entry.file text) = some (.file _) :=
        htask.symm.trans (entry?_of_read_join hplace (by decide) read)
      cases hsame
      refine ⟨size, _, hP, hlt, hlargest, fun h => absurd (unmarked.symm.trans h) nofun,
        fun _ => ⟨?_, ?_⟩⟩
      · exact fun hunsettled => not_solves_of_unsettled hunsettled ⟨out, hout, hsat⟩
      · exact RunCheck.inMemory?_eq_some_iff.mpr ⟨_, out, _, _, _, parsed, mapError_eq_ok.mp hout,
          hlast, made, verdict, rfl⟩

end Attempts

end StrongCyclic.RunDirectory
