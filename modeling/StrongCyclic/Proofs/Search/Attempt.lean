import StrongCyclic.Proofs.Run.Recording
import StrongCyclic.Proofs.Search.SizeSearch

/-!
One attempt of the size search, exit by exit. An attempt for which the time has run out marks its
output file and makes no call; any other attempt makes one call, and what becomes of it depends on
the reply alone, unless the output cannot be written. `traced_attempt` says so of every attempt.
-/

namespace StrongCyclic.Search

open Job

variable {σ : Type} {solver : Solver σ} {plan : SearchPlan} {deadline : Deadline} {n : Nat}
  {world : World σ}

/-- The line that is added to an output when the time ran out. -/
def markText (deadline : Deadline) : String :=
  timedOutMark ++ deadline.limitText ++ ".\n"

/-- What becomes of a reply at the size `n`, from the world after the call on. -/
inductive Settles (plan : SearchPlan) (deadline : Deadline) (n : Nat) (answered : World σ) :
    Except Failure SolverRun → Except Failure (Option SolveOutcome) → World σ → Prop
  | failed {failure : Failure} :
    Settles plan deadline n answered (.error failure) (.error failure) answered
  | unwritten {run : SolverRun} {fault : FileFault}
    (hwrite : answered.files.write (plan.outputFile n) run.stdout = .error fault) :
    Settles plan deadline n answered (.ok run) (.error (.file fault)) answered
  | timedOut {text : String} {written files : FileTree}
    (hwrite : answered.files.write (plan.outputFile n) text = .ok written)
    (hmark : written.append (plan.outputFile n) (markText deadline) = .ok files) :
    Settles plan deadline n answered (.ok (.timedOut text)) (.ok (some (.timedOut n)))
      { answered with files }
  | unmarked {text : String} {written : FileTree} {fault : FileFault}
    (hwrite : answered.files.write (plan.outputFile n) text = .ok written)
    (hmark : written.append (plan.outputFile n) (markText deadline) = .error fault) :
    Settles plan deadline n answered (.ok (.timedOut text)) (.error (.file fault))
      { answered with files := written }
  | unreadable {text : String} {files : FileTree} {failure : Failure}
    (hwrite : answered.files.write (plan.outputFile n) text = .ok files)
    (hread : readOutput text = .error failure) :
    Settles plan deadline n answered (.ok (.finished text)) (.error failure) { answered with files }
  | solved {text : String} {files : FileTree} {out : SolverOutput}
    (hwrite : answered.files.write (plan.outputFile n) text = .ok files)
    (hread : readOutput text = .ok out) (hsat : out.isSatisfiable = true)
    (hstates : n + 1 < Text.wordLimit) :
    Settles plan deadline n answered (.ok (.finished text))
      (.ok (some (.solved n (n + 1) (plan.outputFile n)))) { answered with files }
  /-- The number of states is no word. -/
  | overflowed {text : String} {files : FileTree} {out : SolverOutput}
    (hwrite : answered.files.write (plan.outputFile n) text = .ok files)
    (hread : readOutput text = .ok out) (hsat : out.isSatisfiable = true)
    (hstates : Text.wordLimit ≤ n + 1) :
    Settles plan deadline n answered (.ok (.finished text)) (.error (.crash .overflow))
      { answered with files }
  | unsettled {text : String} {files : FileTree}
    (hwrite : answered.files.write (plan.outputFile n) text = .ok files)
    (hunsettled : Unsettled text) :
    Settles plan deadline n answered (.ok (.finished text)) (.ok none) { answered with files }

/-- An attempt at the size `n`, with its ending and its trace. -/
inductive AttemptRun (solver : Solver σ) (plan : SearchPlan) (deadline : Deadline) (n : Nat)
    (world : World σ) : Except Failure (Option SolveOutcome) → World σ → List Exchange → Prop
  | expired {files : FileTree} (hexpired : deadline.isExpired world.clock = true)
    (hmark : world.files.append (plan.outputFile n) (markText deadline) = .ok files) :
    AttemptRun solver plan deadline n world (.ok (some (.timedOut n))) { world with files } []
  | unmarked {fault : FileFault} (hexpired : deadline.isExpired world.clock = true)
    (hmark : world.files.append (plan.outputFile n) (markText deadline) = .error fault) :
    AttemptRun solver plan deadline n world (.error (.file fault)) world []
  | called {reply : Except Failure SolverRun} {answered after : World σ}
    {result : Except Failure (Option SolveOutcome)}
    (hinTime : deadline.isExpired world.clock = false)
    (hreply : (solver (plan.call n) (deadline.remaining world.clock)).run.run world =
      (reply, answered))
    (hsettles : Settles plan deadline n answered reply result after) :
    AttemptRun solver plan deadline n world result after
      [⟨plan.call n, deadline.remaining world.clock, world.clock, reply⟩]

@[simp]
theorem withRecord_markTimedOut (file : Path) (deadline : Deadline) :
    (markTimedOut file deadline : Job σ Failure Unit).withRecord = markTimedOut file deadline :=
  by simp [markTimedOut]

theorem traced_attempt (solver : Solver σ) (plan : SearchPlan) (deadline : Deadline) (n : Nat)
    (world : World σ) :
    Traced (attempt solver.recorded plan deadline n) (attempt solver plan deadline n) world
      (AttemptRun solver plan deadline n world) := by
  refine .bind_get (fun _ => rfl) ?_
  change Traced (if deadline.isExpired world.clock = true then _ else _)
    (if deadline.isExpired world.clock = true then _ else _) world _
  by_cases hexpired : deadline.isExpired world.clock = true
  · rw [if_pos hexpired, if_pos hexpired]
    refine .bind_change (fun fault hmark => .unmarked hexpired hmark) fun files hmark => ?_
    exact traced_pure (.expired hexpired hmark)
  rw [if_neg hexpired, if_neg hexpired]
  rw [Bool.not_eq_true] at hexpired
  refine .bind (traced_recorded solver _ _) ?_ ?_
  · rintro failure answered _ hfails rfl
    exact .called hexpired hfails .failed
  rintro run answered _ hreply rfl
  refine .bind_change (fun fault hwrite => .called hexpired hreply (.unwritten hwrite))
    fun files hwrite => ?_
  cases run with
  | timedOut text =>
    refine .bind_change (fun fault hmark => .called hexpired hreply (.unmarked hwrite hmark))
      fun files hmark => ?_
    exact traced_pure (.called hexpired hreply (.timedOut hwrite hmark))
  | finished text =>
    refine .bind_ofExcept
      (fun failure hread => .called hexpired hreply (.unreadable hwrite hread)) fun out hread => ?_
    cases hsat : out.isSatisfiable with
    | true =>
      refine .bind_ofExcept (fun failure hfails => ?_) fun states hstates => ?_
      · obtain ⟨cause, hcause, rfl⟩ := Fallible.mapError_eq_error.mp hfails
        obtain ⟨hlimit, rfl⟩ := Word.add_eq_error.mp hcause
        exact .called hexpired hreply (.overflowed hwrite hread hsat hlimit)
      · obtain ⟨rfl, hlimit⟩ := Word.add_eq_ok.mp (Fallible.mapError_eq_ok.mp hstates)
        exact traced_pure (.called hexpired hreply (.solved hwrite hread hsat hlimit))
    | false =>
      exact traced_pure (.called hexpired hreply (.unsettled hwrite ⟨out, hread, hsat⟩))

/-- An attempt after which the search goes on has made one call, whose output is written down and
states no answer. -/
theorem AttemptRun.passed {after : World σ} {trace : List Exchange}
    (h : AttemptRun solver plan deadline n world (.ok none) after trace) :
    ∃ text answered files, deadline.isExpired world.clock = false ∧ Unsettled text ∧
      (solver (plan.call n) (deadline.remaining world.clock)).run.run world =
        (.ok (.finished text), answered) ∧
      answered.files.write (plan.outputFile n) text = .ok files ∧ after = { answered with files } ∧
      trace = [⟨plan.call n, deadline.remaining world.clock, world.clock, .ok (.finished text)⟩] := by
  cases h with
  | called hinTime hreply hsettles =>
    cases hsettles with
    | unsettled hwrite hunsettled =>
      exact ⟨_, _, _, hinTime, hunsettled, hreply, hwrite, rfl, rfl⟩

theorem AttemptRun.failsLast {result : Except Failure (Option SolveOutcome)} {after : World σ}
    {trace : List Exchange} (h : AttemptRun solver plan deadline n world result after trace) :
    FailsLast some result trace := by
  cases h with
  | expired => exact failsLast_nil
  | unmarked => exact failsLast_nil
  | called hinTime hreply hsettles =>
    cases hsettles with
    | failed => exact failsLast_failed fun _ hfailed => congrArg some (Except.error.inj hfailed)
    | _ => exact failsLast_replied rfl

/-- An attempt makes at most one call: the one for its size, in time. -/
theorem AttemptRun.trace_eq {result : Except Failure (Option SolveOutcome)} {after : World σ}
    {trace : List Exchange} (h : AttemptRun solver plan deadline n world result after trace) :
    trace = [] ∨ ∃ x, trace = [x] ∧ x.call = plan.call n ∧
      x.budget = deadline.remaining x.time ∧ deadline.isExpired x.time = false := by
  cases h with
  | expired => exact .inl rfl
  | unmarked => exact .inl rfl
  | called hinTime => exact .inr ⟨_, rfl, rfl, rfl, hinTime⟩

theorem AttemptRun.ne_nil {result : Except Failure (Option SolveOutcome)} {after : World σ}
    {trace : List Exchange} (h : AttemptRun solver plan deadline n world result after trace)
    (hinTime : deadline.isExpired world.clock = false) : trace ≠ [] := by
  cases h with
  | expired hexpired => exact absurd hexpired (by simp [hinTime])
  | unmarked hexpired => exact absurd hexpired (by simp [hinTime])
  | called => exact List.cons_ne_nil _ _

/-! ### The attempts of a search -/

/-- A search from the size `n` on, with its ending and its trace. -/
inductive SizesRun (solver : Solver σ) (plan : SearchPlan) (range : SizeRange)
    (deadline : Deadline) :
    Nat → World σ → Except Failure SolveOutcome → World σ → List Exchange → Prop
  | past {n : Nat} {world : World σ} (hpast : range.isPast n = true) :
    SizesRun solver plan range deadline n world (.ok (.exhausted range.max)) world []
  | failed {n : Nat} {world after : World σ} {failure : Failure} {trace : List Exchange}
    (hpast : range.isPast n = false)
    (hattempt : AttemptRun solver plan deadline n world (.error failure) after trace) :
    SizesRun solver plan range deadline n world (.error failure) after trace
  | ended {n : Nat} {world after : World σ} {outcome : SolveOutcome}
    {trace : List Exchange} (hpast : range.isPast n = false)
    (hattempt : AttemptRun solver plan deadline n world (.ok (some outcome)) after trace) :
    SizesRun solver plan range deadline n world (.ok outcome) after trace
  /-- The next size is no word. -/
  | overflowed {n : Nat} {world after : World σ} {trace : List Exchange}
    (hpast : range.isPast n = false)
    (hattempt : AttemptRun solver plan deadline n world (.ok none) after trace)
    (hnext : Text.wordLimit ≤ range.sizeFrom n 1) :
    SizesRun solver plan range deadline n world (.error (.crash .overflow)) after trace
  | passed {n next : Nat} {world between after : World σ}
    {result : Except Failure SolveOutcome} {trace more : List Exchange}
    (hpast : range.isPast n = false)
    (hattempt : AttemptRun solver plan deadline n world (.ok none) between trace)
    (hnext : range.next n = .ok next)
    (hrest : SizesRun solver plan range deadline next between result after more) :
    SizesRun solver plan range deadline n world result after (trace ++ more)

theorem traced_sizesFrom (solver : Solver σ) (plan : SearchPlan) (range : SizeRange)
    (deadline : Deadline) (n : Nat) (world : World σ) :
    Traced (sizesFrom solver.recorded plan range deadline n)
      (sizesFrom solver plan range deadline n) world
      (SizesRun solver plan range deadline n world) := by
  induction n using sizesFrom.induct range generalizing world with
  | case1 n hpast =>
    rw [sizesFrom, sizesFrom, if_pos hpast, if_pos hpast]
    exact traced_pure (.past hpast)
  | case2 n hpast ih =>
    rw [sizesFrom, sizesFrom, if_neg hpast, if_neg hpast]
    rw [Bool.not_eq_true] at hpast
    refine .bind (traced_attempt solver plan deadline n world)
      (fun failure after trace _ hattempt => .failed hpast hattempt) ?_
    rintro outcome between trace - hattempt
    cases outcome with
    | some outcome => exact traced_pure ((List.append_nil trace).symm ▸ .ended hpast hattempt)
    | none =>
      dsimp only
      split
      case h_1 next hnext =>
        exact (ih next hnext between).imp fun result after more hrest =>
          .passed hpast hattempt hnext hrest
      case h_2 cause hcause =>
        obtain ⟨hlimit, rfl⟩ := SizeRange.next_eq_error.mp hcause
        rw [← range.sizeFrom_zero n, ← range.sizeFrom_succ] at hlimit
        exact traced_throw ((List.append_nil trace).symm ▸ .overflowed hpast hattempt hlimit)

section Run

variable {range : SizeRange} {result : Except Failure SolveOutcome} {after : World σ}
  {made : List Exchange}

/-- What the exchange with the number `k` of a search from the size `n` on is: the call for the size
reached after `k` steps, made in time. -/
def IsExchange (plan : SearchPlan) (range : SizeRange) (deadline : Deadline) (n k : Nat)
    (x : Exchange) : Prop :=
  range.isPast (range.sizeFrom n k) = false ∧ x.call = plan.call (range.sizeFrom n k) ∧
    x.budget = deadline.remaining x.time ∧ deadline.isExpired x.time = false

theorem AttemptRun.isExchange {result : Except Failure (Option SolveOutcome)} {k : Nat}
    {x : Exchange} (h : AttemptRun solver plan deadline n world result after made)
    (hpast : range.isPast n = false) (hx : made[k]? = some x) :
    IsExchange plan range deadline n k x := by
  obtain rfl | ⟨y, rfl, hy⟩ := h.trace_eq
  · cases hx
  · cases k with
    | zero =>
      obtain rfl := Option.some.inj hx
      rw [IsExchange, range.sizeFrom_zero]
      exact ⟨hpast, hy⟩
    | succ k => cases hx

theorem SizesRun.isExchange (h : SizesRun solver plan range deadline n world result after made)
    {k : Nat} {x : Exchange} (hx : made[k]? = some x) :
    IsExchange plan range deadline n k x := by
  induction h generalizing k with
  | past => cases hx
  | failed hpast hattempt => exact hattempt.isExchange hpast hx
  | ended hpast hattempt => exact hattempt.isExchange hpast hx
  | overflowed hpast hattempt => exact hattempt.isExchange hpast hx
  | passed hpast hattempt hnext _ ih =>
    obtain ⟨text, answered, files, -, -, -, -, -, rfl⟩ := hattempt.passed
    cases k with
    | zero => exact hattempt.isExchange hpast hx
    | succ k =>
      have hmore := ih hx
      rwa [IsExchange, SizeRange.sizeFrom_next hnext] at hmore

/-- The calls are made at the sizes in order. -/
theorem SizesRun.map_call (h : SizesRun solver plan range deadline n world result after made) :
    made.map Exchange.call =
      (List.range made.length).map fun k => plan.call (range.sizeFrom n k) := by
  refine List.ext_getElem (by simp) fun k hk hk' => ?_
  rw [List.getElem_map, List.getElem_map, List.getElem_range]
  exact (h.isExchange (List.getElem?_eq_getElem (by simpa using hk))).2.1

theorem SizesRun.failsLast
    (h : SizesRun solver plan range deadline n world result after made) :
    FailsLast some result made := by
  induction h with
  | past => exact failsLast_nil
  | failed _ hattempt => exact hattempt.failsLast.of_error rfl
  | ended _ hattempt => exact hattempt.failsLast.of_ok
  | overflowed _ hattempt => exact hattempt.failsLast.of_ok
  | passed _ hattempt _ _ ih => exact hattempt.failsLast.append ih

theorem AttemptRun.outcome_ne {outcome : SolveOutcome}
    (h : AttemptRun solver plan deadline n world (.ok (some outcome)) after made) :
    outcome ≠ .trivial ∧ outcome ≠ .unsolvable ∧ ∀ max, outcome ≠ .exhausted max := by
  cases h with
  | expired => simp
  | called _ _ hsettles => cases hsettles <;> simp

theorem SizesRun.outcome_ne {outcome : SolveOutcome}
    (h : SizesRun solver plan range deadline n world (.ok outcome) after made) :
    outcome ≠ .trivial ∧ outcome ≠ .unsolvable := by
  generalize hresult : (Except.ok outcome : Except Failure SolveOutcome) = result at h
  induction h with
  | past =>
    cases hresult
    simp
  | failed => cases hresult
  | ended _ hattempt =>
    cases hresult
    exact ⟨hattempt.outcome_ne.1, hattempt.outcome_ne.2.1⟩
  | overflowed => cases hresult
  | passed _ _ _ _ ih => exact ih hresult

/-- A search that exhausts the sizes has read an output without an answer after each call. -/
theorem SizesRun.unsettled_of_exhausted {max : Nat}
    (h : SizesRun solver plan range deadline n world (.ok (.exhausted max)) after made) :
    max = range.max ∧
      ∀ x ∈ made, ∃ text, x.reply = .ok (.finished text) ∧ Unsettled text := by
  generalize hresult : (Except.ok (.exhausted max) : Except Failure SolveOutcome) = result at h
  induction h with
  | past =>
    cases hresult
    simp
  | failed => cases hresult
  | ended hpast hattempt =>
    cases hresult
    exact absurd rfl (hattempt.outcome_ne.2.2 max)
  | overflowed => cases hresult
  | passed hpast hattempt hnext hrest ih =>
    obtain ⟨text, answered, files, -, hunsettled, -, -, -, rfl⟩ := hattempt.passed
    obtain ⟨hmax, hmore⟩ := ih hresult
    exact ⟨hmax, List.forall_mem_cons.mpr ⟨⟨text, rfl, hunsettled⟩, hmore⟩⟩

end Run

end StrongCyclic.Search
