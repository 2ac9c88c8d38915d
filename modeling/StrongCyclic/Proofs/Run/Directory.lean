import StrongCyclic.Proofs.Disk.FileTree
import StrongCyclic.Proofs.Run.FileNames
import StrongCyclic.Proofs.Run.Returns
import StrongCyclic.Run.Directory

/-!
The files of a run that its check depends on: the planning task and the outputs of the attempts.
Files at other places may be written without touching either. After the old outputs are removed
there is no attempt, and the check reads the largest attempt that has been added since.
-/

namespace StrongCyclic.RunDirectory

open Fallible FileTree Job Place

variable {σ : Type} {directory : Place} {P Q : Nat → String → Prop} {tree : FileTree}
  {world after : World σ}

/-! ### The files that count -/

/-- The directory holds the planning task. -/
def HasTask (directory : Place) (text : String) (tree : FileTree) : Prop :=
  tree.entry? (directory ++ [FileNames.task]) = some (.file text)

/-- Every output of an attempt in the directory is called after its size, and `P` holds of its size
and text. -/
def Attempts (directory : Place) (P : Nat → String → Prop) (tree : FileTree) : Prop :=
  ∀ name ∈ tree.namesIn directory, ∀ size, FileNames.attemptSize? name = some size →
    name = FileNames.attemptOutput size ∧
      ∃ text, tree.entry? (directory ++ [name]) = some (.file text) ∧ P size text

/-- A name of neither the planning task nor the output of an attempt. -/
def IsAside (name : String) : Prop :=
  name ≠ FileNames.task ∧ FileNames.attemptSize? name = none

instance (name : String) : Decidable (IsAside name) :=
  inferInstanceAs (Decidable (_ ∧ _))

/-- A property of the world that stays when files with other names, or in other directories, are
written. -/
def Stable (directory : Place) (P : World σ → Prop) : Prop :=
  ∀ world place entry, (∀ name, place = directory ++ [name] → IsAside name) →
    P world → P { world with files := world.files.put place entry }

/-- A property of the world that stays when files are written in the directory under names of a kind,
or in other directories. -/
def StableUnder (aside : String → Prop) (directory : Place) (P : World σ → Prop) : Prop :=
  ∀ world place entry, (∀ name, place = directory ++ [name] → aside name) →
    P world → P { world with files := world.files.put place entry }

/-- The names of the kind are those of all files that a run writes beside the planning task, the
outputs of the attempts and the mark that there is no weak plan. -/
structure HasRunNames (aside : String → Prop) : Prop where
  program : ∀ s, aside (s ++ ".lp")
  weakPlanOutput : aside FileNames.weakPlanOutput
  undoOutput : aside FileNames.undoOutput
  controllerText : aside FileNames.controllerText
  controllerGraph : aside FileNames.controllerGraph
  verification : aside FileNames.verification

theorem hasRunNames_isAside : HasRunNames IsAside where
  program s := ⟨FileNames.append_lp_ne (by decide), FileNames.attemptSize?_append_lp s⟩
  weakPlanOutput := by decide
  undoOutput := by decide
  controllerText := by decide
  controllerGraph := by decide
  verification := by decide

theorem stable_entry {aside : String → Prop} {name : String} (hname : ¬ aside name)
    (entry : Option Entry) :
    StableUnder aside directory fun world : World σ =>
      world.files.entry? (directory ++ [name]) = entry := by
  intro world place new haside hentry
  have hne : directory ++ [name] ≠ place := fun heq => hname (haside name heq.symm)
  exact (entry?_put_of_ne hne).trans hentry

theorem stable_hasTask (text : String) :
    Stable directory fun world : World σ => HasTask directory text world.files :=
  stable_entry (fun h => h.1 rfl) _

theorem stable_attempts :
    Stable directory fun world : World σ => Attempts directory P world.files := by
  intro world place entry haside hattempts name hname size hsize
  have hne : directory ++ [name] ≠ place := fun heq => by
    simp [(haside name heq.symm).2] at hsize
  rw [entry?_put_of_ne hne]
  rcases mem_namesIn_put hname with hname | heq
  · exact hattempts name hname size hsize
  · exact absurd heq.symm hne

theorem Stable.and {P Q : World σ → Prop} (hP : Stable directory P) (hQ : Stable directory Q) :
    Stable directory fun world => P world ∧ Q world :=
  fun world place entry haside h =>
    ⟨hP world place entry haside h.1, hQ world place entry haside h.2⟩

theorem StableUnder.put {aside : String → Prop} {P : World σ → Prop}
    (hP : StableUnder aside directory P) {name : String} (haside : aside name) (entry : Entry)
    (h : P world) : P { world with files := world.files.put (directory ++ [name]) entry } := by
  refine hP world _ entry (fun other heq => ?_) h
  obtain rfl : name = other := by simpa using heq
  exact haside

/-- Writing under a name that does not count keeps what is stable. -/
theorem keeps_write {aside : String → Prop} {P : World σ → Prop}
    (hP : StableUnder aside directory P) (hplace : Proper directory) {name : String}
    (hname : IsEntryName name) (haside : aside name) (text : String) :
    Keeps P (change (·.write ((pathOf directory).join name) text)) := by
  refine keeps_change fun world files hwrite hworld => ?_
  obtain rfl := eq_put_of_write_join hplace hname hwrite
  exact hP.put haside _ hworld

theorem Attempts.imp (h : Attempts directory P tree)
    (hPQ : ∀ size output, P size output → Q size output) : Attempts directory Q tree := by
  intro name hname size hsize
  obtain ⟨hcalled, output, hentry, hP⟩ := h name hname size hsize
  exact ⟨hcalled, output, hentry, hPQ size output hP⟩

theorem Attempts.with_entry (h : Attempts directory P tree) :
    Attempts directory (fun size output => P size output ∧
      tree.entry? (directory ++ [FileNames.attemptOutput size]) = some (.file output)) tree := by
  intro name hname size hsize
  obtain ⟨rfl, output, hentry, hP⟩ := h name hname size hsize
  exact ⟨rfl, output, hentry, hP, hentry⟩

/-- The output of an attempt is added to the attempts, or replaces the old one of its size. -/
theorem Attempts.put (h : Attempts directory P tree) {n : Nat} {text : String}
    (hkeep : ∀ size output, size ≠ n → P size output → Q size output) (hnew : Q n text) :
    Attempts directory Q
      (tree.put (directory ++ [FileNames.attemptOutput n]) (.file text)) := by
  intro name hname size hsize
  by_cases heq : name = FileNames.attemptOutput n
  · subst heq
    obtain rfl := FileNames.eq_of_attemptSize?_attemptOutput hsize
    exact ⟨rfl, text, entry?_put_self _ _ _ _, hnew⟩
  · have hne : directory ++ [name] ≠ directory ++ [FileNames.attemptOutput n] := by simpa using heq
    rcases mem_namesIn_put hname with hname | hplace
    · obtain ⟨hcalled, output, hentry, hP⟩ := h name hname size hsize
      have hsize_ne : size ≠ n := by
        rintro rfl
        exact heq hcalled
      exact ⟨hcalled, output, by rwa [entry?_put_of_ne hne], hkeep size output hsize_ne hP⟩
    · exact absurd hplace.symm hne

theorem hasTask_put_attemptOutput {text output : String} {n : Nat}
    (h : HasTask directory text tree) :
    HasTask directory text
      (tree.put (directory ++ [FileNames.attemptOutput n]) (.file output)) := by
  rw [HasTask, entry?_put_of_ne (by simpa using FileNames.task_ne_attemptOutput n)]
  exact h

/-! ### Removing old outputs -/

theorem mem_attempts {names : List String} {size : Nat} {name : String} :
    (size, name) ∈ attempts names ↔ name ∈ names ∧ FileNames.attemptSize? name = some size := by
  simp only [attempts, List.mem_filterMap, Option.map_eq_some_iff, Prod.mk.injEq]
  constructor
  · rintro ⟨name', hname, size', hsize, rfl, rfl⟩
    exact ⟨hname, hsize⟩
  · rintro ⟨hname, hsize⟩
    exact ⟨name, hname, size, hsize, rfl, rfl⟩

theorem files_of_removeAll {names : List String} {u : Unit} (hplace : Proper directory)
    (hnames : ∀ name ∈ names, IsEntryName name)
    (h : Returns (removeAll (pathOf directory) names) world u after) :
    after.files = names.foldl (fun tree name => tree.erase (directory ++ [name])) world.files := by
  induction names generalizing world with
  | nil =>
    obtain ⟨-, rfl⟩ := returns_pure.mp h
    rfl
  | cons name names ih =>
    obtain ⟨hname, hrest⟩ := List.forall_mem_cons.mp hnames
    obtain ⟨_, between, hfirst, hothers⟩ := returns_bind.mp h
    obtain ⟨files, hremove, rfl⟩ := returns_change.mp (returns_asFailure.mp hfirst)
    obtain ⟨place, hresolve, rfl⟩ := exists_of_remove hremove
    rw [ih hrest hothers, List.foldl_cons, resolve_join hplace hname hresolve]

theorem mem_namesIn_foldl_erase {names : List String} {name : String} :
    name ∈ (names.foldl (fun tree name => tree.erase (directory ++ [name])) tree).namesIn
        directory ↔
      name ∈ tree.namesIn directory ∧ name ∉ names := by
  induction names generalizing tree with
  | nil => simp
  | cons first names ih =>
    rw [List.foldl_cons, ih, mem_namesIn_erase]
    simp [and_assoc]

theorem entry?_foldl_erase {names : List String} {place : Place}
    (h : ∀ name ∈ names, place ≠ directory ++ [name]) :
    FileTree.entry? (names.foldl (fun tree name => tree.erase (directory ++ [name])) tree) place =
      tree.entry? place := by
  induction names generalizing tree with
  | nil => rfl
  | cons first names ih =>
    obtain ⟨hfirst, hrest⟩ := List.forall_mem_cons.mp h
    rw [List.foldl_cons, ih hrest, entry?_erase_of_ne hfirst]

/-- The outputs of attempts are erased. -/
theorem exists_of_removeOutputs {count : Nat} (hplace : Proper directory)
    (h : Returns (removeOutputs (pathOf directory)) world count after) :
    ∃ names : List String,
      after.files =
        names.foldl (fun tree name => tree.erase (directory ++ [name])) world.files ∧
      ∀ name, name ∈ names ↔
        name ∈ world.files.namesIn directory ∧ FileNames.attemptSize? name ≠ none := by
  obtain ⟨names, between, hquery, hrest⟩ := returns_bind.mp h
  obtain ⟨_, last, hremove, hcount⟩ := returns_bind.mp hrest
  obtain ⟨-, rfl⟩ := returns_pure.mp hcount
  obtain ⟨hlist, rfl⟩ := returns_query.mp (returns_asFailure.mp hquery)
  obtain ⟨place, hresolve, rfl⟩ := exists_of_list hlist
  obtain rfl := resolve_pathOf hplace hresolve
  have hnames : ∀ name, name ∈ (attempts (world.files.namesIn place)).map Prod.snd ↔
      name ∈ world.files.namesIn place ∧ FileNames.attemptSize? name ≠ none := by
    intro name
    simp [mem_attempts, Option.ne_none_iff_exists']
  refine ⟨_, files_of_removeAll hplace (fun name hname => ?_) hremove, hnames⟩
  obtain ⟨size, hsize⟩ := Option.ne_none_iff_exists'.mp ((hnames name).mp hname).2
  exact FileNames.isEntryName_of_attemptSize? hsize

/-- Nothing but the outputs of attempts is removed, and they all are. -/
theorem mem_namesIn_removeOutputs {count : Nat} {name : String} (hplace : Proper directory)
    (h : Returns (removeOutputs (pathOf directory)) world count after) :
    name ∈ after.files.namesIn directory ↔
      name ∈ world.files.namesIn directory ∧ FileNames.attemptSize? name = none := by
  obtain ⟨names, hfiles, hnames⟩ := exists_of_removeOutputs hplace h
  rw [hfiles, mem_namesIn_foldl_erase, hnames]
  exact and_congr_right fun hname =>
    ⟨fun h => not_ne_iff.mp fun hsize => h ⟨hname, hsize⟩, fun h hboth => hboth.2 h⟩

theorem removeOutputs_returns {count : Nat} {text : String} (hplace : Proper directory)
    (htask : HasTask directory text world.files)
    (h : Returns (removeOutputs (pathOf directory)) world count after) :
    HasTask directory text after.files ∧ Attempts directory (fun _ _ => False) after.files := by
  constructor
  · obtain ⟨names, hfiles, hnames⟩ := exists_of_removeOutputs hplace h
    rw [HasTask, hfiles, entry?_foldl_erase]
    · exact htask
    · intro name hname heq
      obtain rfl : FileNames.task = name := by simpa using heq
      exact ((hnames _).mp hname).2 (by decide)
  · intro name hname size hsize
    exact nomatch hsize.symm.trans ((mem_namesIn_removeOutputs hplace h).mp hname).2

/-! ### The largest attempt -/

theorem foldl_larger {all : List (Nat × String)} {best : Option (Nat × String)}
    {result : Nat × String} (h : all.foldl larger best = some result) :
    (best = some result ∨ result ∈ all) ∧ (∀ attempt ∈ best, attempt.1 ≤ result.1) ∧
      ∀ attempt ∈ all, attempt.1 ≤ result.1 := by
  induction all generalizing best with
  | nil =>
    obtain rfl : best = some result := h
    simp
  | cons first all ih =>
    obtain ⟨hresult, hbest, hall⟩ := ih h
    rw [List.forall_mem_cons, List.mem_cons]
    cases best with
    | none =>
      have hfirst : first.1 ≤ result.1 := hbest first rfl
      exact ⟨.inr (hresult.imp (fun heq => (Option.some.inj heq).symm) id), by simp, hfirst, hall⟩
    | some old =>
      by_cases hlt : old.1 < first.1
      · have hlarger : larger (some old) first = some first := if_pos hlt
        rw [hlarger] at hresult hbest
        have hfirst : first.1 ≤ result.1 := hbest first rfl
        refine ⟨.inr (hresult.imp (fun heq => (Option.some.inj heq).symm) id), ?_, hfirst, hall⟩
        rintro attempt ⟨⟩
        omega
      · have hlarger : larger (some old) first = some old := if_neg hlt
        rw [hlarger] at hresult hbest
        have hold : old.1 ≤ result.1 := hbest old rfl
        exact ⟨hresult.imp id .inr, hbest, by omega, hall⟩

theorem exists_of_largestAttempt? {names : List String} {name : String}
    (h : largestAttempt? names = some name) :
    name ∈ names ∧ ∃ size, FileNames.attemptSize? name = some size ∧
      ∀ other ∈ names, ∀ n, FileNames.attemptSize? other = some n → n ≤ size := by
  obtain ⟨⟨size, name⟩, hfold, rfl⟩ := Option.map_eq_some_iff.mp h
  obtain ⟨hresult, -, hlargest⟩ := foldl_larger hfold
  obtain ⟨hname, hsize⟩ := mem_attempts.mp (hresult.resolve_left (by simp))
  exact ⟨hname, size, hsize, fun other hother n hn =>
    hlargest (n, other) (mem_attempts.mpr ⟨hother, hn⟩)⟩

end StrongCyclic.RunDirectory
