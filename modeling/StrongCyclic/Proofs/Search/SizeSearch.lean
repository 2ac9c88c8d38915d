import StrongCyclic.Proofs.Run.Reports
import StrongCyclic.Search.SizeSearch

/-!
The search for a size, followed through the run directory. Each attempt that lets the search go on
has left an output that states no answer; the attempt that ends it has left the output that the
solver printed last. The sizes tried are the first one and the sums with a growing number of steps,
so the last attempt is the largest.
-/

namespace StrongCyclic

variable {σ : Type}

namespace SizeRange

/-- The size that is reached from `first` after `k` steps of at least one. -/
def sizeFrom (range : SizeRange) (first k : Nat) : Nat :=
  first + k * Nat.max range.step 1

theorem step_pos (range : SizeRange) : 0 < Nat.max range.step 1 :=
  Nat.lt_of_lt_of_le Nat.one_pos (Nat.le_max_right _ _)

@[simp]
theorem sizeFrom_zero (range : SizeRange) (first : Nat) : range.sizeFrom first 0 = first := by
  rw [sizeFrom, Nat.zero_mul, Nat.add_zero]

theorem sizeFrom_succ (range : SizeRange) (first k : Nat) :
    range.sizeFrom first (k + 1) = range.sizeFrom first k + Nat.max range.step 1 := by
  rw [sizeFrom, sizeFrom, Nat.succ_mul, Nat.add_assoc]

theorem sizeFrom_le_sizeFrom (range : SizeRange) (first : Nat) {i k : Nat} (h : i ≤ k) :
    range.sizeFrom first i ≤ range.sizeFrom first k :=
  Nat.add_le_add_left (Nat.mul_le_mul_right _ h) _

theorem sizeFrom_lt_sizeFrom (range : SizeRange) (first : Nat) {i k : Nat} (h : i < k) :
    range.sizeFrom first i < range.sizeFrom first k :=
  Nat.add_lt_add_left (Nat.mul_lt_mul_of_pos_right h range.step_pos) _

theorem lt_sizeFrom_succ (range : SizeRange) (first k : Nat) :
    first < range.sizeFrom first (k + 1) :=
  Nat.lt_of_le_of_lt (Nat.le_add_right _ _) (range.sizeFrom_lt_sizeFrom first k.lt_succ_self)

/-- The next size is the sum, which is a word. -/
theorem next_eq_sizeFrom {range : SizeRange} {first next : Nat} (h : range.next first = .ok next) :
    next = range.sizeFrom first 1 ∧ range.sizeFrom first 1 < Text.wordLimit := by
  rw [sizeFrom_succ, sizeFrom_zero]
  exact next_eq_ok.mp h

theorem sizeFrom_next {range : SizeRange} {first next : Nat} (h : range.next first = .ok next)
    (k : Nat) : range.sizeFrom next k = range.sizeFrom first (k + 1) := by
  rw [(next_eq_ok.mp h).1, sizeFrom, sizeFrom, Nat.succ_mul, Nat.add_assoc,
    Nat.add_comm (Nat.max _ _)]

end SizeRange

/-- The solver answers calls without touching the files. -/
def Solver.OnlyReplies (solver : Solver σ) : Prop :=
  ∀ call budget, (solver call budget).KeepsFiles

/-- The solver has answered the call with `reply` and has not been called since. -/
def Solver.LastReply (solver : Solver σ) (call : SolverCall) (reply : String) (world : World σ) :
    Prop :=
  ∃ before budget answered, (solver call budget).Returns before (.finished reply) answered ∧
    world.solver = answered.solver ∧ world.clock = answered.clock

namespace Search

open FileTree Job Place RunDirectory

variable {directory : Place} {solver : Solver σ} {plan : SearchPlan} {deadline : Deadline}
  {world after : World σ}

/-- An attempt that does not run out of time has written down what the solver printed. -/
theorem attempt_returns {size : Nat} {outcome : Option SolveOutcome}
    (hsolver : solver.OnlyReplies) (hplace : Proper directory)
    (hplan : plan.directory = pathOf directory)
    (hdone : ∀ n, outcome ≠ some (.timedOut n))
    (h : Returns (attempt solver plan deadline size) world outcome after) :
    ∃ reply, solver.LastReply (plan.call size) reply after ∧
      after.files =
        world.files.put (directory ++ [FileNames.attemptOutput size]) (.file reply) ∧
      (outcome = none ∧ Unsettled reply ∨
        ∃ states, outcome = some (.solved size states (plan.outputFile size))) := by
  obtain ⟨seen, between, hget, h⟩ := returns_bind.mp h
  obtain ⟨rfl, rfl⟩ := returns_get.mp hget
  dsimp only at h
  split at h
  · obtain ⟨_, between, -, h⟩ := returns_bind.mp h
    obtain ⟨rfl, rfl⟩ := returns_pure.mp h
    exact absurd rfl (hdone size)
  obtain ⟨run, answered, hrun, h⟩ := returns_bind.mp h
  obtain ⟨_, written, hchange, h⟩ := returns_bind.mp h
  obtain ⟨files, hwrite, rfl⟩ := returns_change.mp (returns_asFailure.mp hchange)
  rw [SearchPlan.outputFile, hplan] at hwrite
  obtain rfl := eq_put_of_write_join hplace (FileNames.isEntryName_attemptOutput size) hwrite
  rw [hsolver _ _ hrun] at h
  cases run with
  | timedOut reply =>
    obtain ⟨_, between, -, h⟩ := returns_bind.mp h
    obtain ⟨rfl, rfl⟩ := returns_pure.mp h
    exact absurd rfl (hdone size)
  | finished reply =>
    obtain ⟨out, between, hread, h⟩ := returns_bind.mp h
    obtain ⟨hout, rfl⟩ := returns_ofExcept.mp hread
    split at h
    · obtain ⟨states, between, hstates, h⟩ := returns_bind.mp h
      obtain ⟨-, rfl⟩ := returns_ofExcept.mp hstates
      obtain ⟨rfl, rfl⟩ := returns_pure.mp h
      exact ⟨reply, ⟨_, _, answered, hrun, rfl, rfl⟩, rfl, .inr ⟨_, rfl⟩⟩
    · next hsat =>
      obtain ⟨rfl, rfl⟩ := returns_pure.mp h
      exact ⟨reply, ⟨_, _, answered, hrun, rfl, rfl⟩, rfl,
        .inl ⟨rfl, out, hout, by simpa using hsat⟩⟩

/-- What the search has left behind when it has found a controller of size `n`, `k` steps after
`first`: the attempts are the output that the solver printed last and outputs of the sizes before,
none of which states an answer. -/
structure Found (solver : Solver σ) (plan : SearchPlan) (range : SizeRange) (directory : Place)
    (old : Nat → Prop) (first k n : Nat) (reply : String) (world : World σ) : Prop where
  size_eq : n = range.sizeFrom first k
  isWord : k ≠ 0 → n < Text.wordLimit
  lastReply : solver.LastReply (plan.call n) reply world
  mem_names : FileNames.attemptOutput n ∈ world.files.namesIn directory
  attempts : Attempts directory
    (fun size output => size = n ∧ output = reply ∨
      size ≠ n ∧ Unsettled output ∧ (old size ∨ ∃ i < k, size = range.sizeFrom first i)) world.files

theorem sizesFrom_returns {range : SizeRange} {first n states : Nat} {output : Path}
    {text : String} {old : Nat → Prop} (hsolver : solver.OnlyReplies) (hplace : Proper directory)
    (hplan : plan.directory = pathOf directory)
    (htask : HasTask directory text world.files)
    (hattempts : Attempts directory (fun size output => Unsettled output ∧ old size) world.files)
    (h : Returns (sizesFrom solver plan range deadline first) world (.solved n states output)
      after) :
    HasTask directory text after.files ∧
      ∃ k reply, Found solver plan range directory old first k n reply after := by
  induction first using sizesFrom.induct range generalizing world old with
  | case1 first hpast =>
    rw [sizesFrom, if_pos hpast] at h
    obtain ⟨heq, -⟩ := returns_pure.mp h
    cases heq
  | case2 first hpast ih =>
    rw [sizesFrom, if_neg hpast] at h
    obtain ⟨outcome, between, hattempt, h⟩ := returns_bind.mp h
    cases outcome with
    | some outcome =>
      obtain ⟨rfl, rfl⟩ := returns_pure.mp h
      obtain ⟨reply, hreply, hfiles, hend⟩ :=
        attempt_returns hsolver hplace hplan (by simp) hattempt
      obtain ⟨states, heq⟩ := hend.resolve_left (by simp)
      cases heq
      rw [hfiles]
      refine ⟨hasTask_put_attemptOutput htask, 0, reply, (range.sizeFrom_zero n).symm,
        fun hk => absurd rfl hk, hreply, ?_, ?_⟩
      · rw [hfiles]
        exact mem_namesIn_of_entry (entry?_put_self _ _ _ _)
      · rw [hfiles]
        refine hattempts.put (fun size output hne hold => ?_) (.inl ⟨rfl, rfl⟩)
        exact .inr ⟨hne, hold.1, .inl hold.2⟩
    | none =>
      dsimp only at h
      split at h
      case h_2 => exact absurd h not_returns_throw
      case h_1 next hnext =>
        obtain ⟨reply, -, hfiles, hend⟩ :=
          attempt_returns hsolver hplace hplan (by simp) hattempt
        obtain ⟨-, hreply⟩ := hend.resolve_right (by simp)
        have htask' : HasTask directory text between.files :=
          hfiles ▸ hasTask_put_attemptOutput htask
        have hattempts' : Attempts directory
            (fun size output => Unsettled output ∧ (old size ∨ size = first)) between.files := by
          rw [hfiles]
          exact hattempts.put (fun size output _ hold => ⟨hold.1, .inl hold.2⟩) ⟨hreply, .inr rfl⟩
        obtain ⟨hafter, k, last, hfound⟩ := ih next hnext htask' hattempts' h
        refine ⟨hafter, k + 1, last, ?_, fun _ => ?_, hfound.lastReply, hfound.mem_names, ?_⟩
        · rw [hfound.size_eq, SizeRange.sizeFrom_next hnext]
        · by_cases hk : k = 0
          · rw [hfound.size_eq, hk, SizeRange.sizeFrom_next hnext]
            exact (SizeRange.next_eq_sizeFrom hnext).2
          · exact hfound.isWord hk
        · refine hfound.attempts.imp fun size output h => h.imp_right fun hother => ?_
          refine ⟨hother.1, hother.2.1, ?_⟩
          obtain (hold | rfl) | ⟨i, hi, rfl⟩ := hother.2.2
          · exact .inl hold
          · exact .inr ⟨0, by omega, (range.sizeFrom_zero size).symm⟩
          · exact .inr ⟨i + 1, by omega, SizeRange.sizeFrom_next hnext i⟩

namespace Found

variable {range : SizeRange} {first k n : Nat} {reply : String}

theorem stable_found {old : Nat → Prop} :
    Stable directory (Found solver plan range directory old first k n reply) := by
  intro world place entry haside ⟨hsize, hword, hreply, hmem, hattempts⟩
  exact ⟨hsize, hword, hreply, mem_namesIn_put_of_mem hmem,
    stable_attempts world place entry haside hattempts⟩

/-- The check of a directory in which a controller has been found goes by the last attempt, which is
the largest. -/
theorem check_returns {text : String} {result : RunCheck} (hplace : Proper directory)
    (htask : HasTask directory text world.files)
    (h : Found solver plan range directory (fun _ => False) first k n reply world)
    (hcheck : Returns (check (pathOf directory)) world result after)
    (hreply : Text.contains timedOutMark reply = false) :
    RunCheck.inMemory? (pathOf directory) text reply = some result := by
  obtain ⟨size, output, ⟨hsize, hentry⟩, hword, hlargest, -, hgoes⟩ :=
    RunDirectory.check_returns hplace htask h.attempts.with_entry hcheck
  rcases hsize with ⟨rfl, rfl⟩ | ⟨hne, hunsettled, hold | ⟨i, hi, rfl⟩⟩
  · exact (hgoes hreply).2
  · exact hold.elim
  · have hn : n < Text.wordLimit := h.isWord (Nat.ne_zero_of_lt hi)
    have hle := hlargest _ h.mem_names n (FileNames.attemptSize?_attemptOutput hn)
    have hlt := range.sizeFrom_lt_sizeFrom first hi
    rw [h.size_eq] at hle
    omega

end Found

end Search

end StrongCyclic
