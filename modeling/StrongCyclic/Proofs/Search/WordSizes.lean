import StrongCyclic.Proofs.Search.Reaches
import StrongCyclic.Proofs.Search.SizesInOrder

/-!
When the size search stays within 64-bit words. The step to the next size is made after a failed
attempt and before the comparison with the largest size, so the size after the last one of the range
has to be a word as well. Whatever the range is, the sizes that are called are sums that grow, and the
search is over after the sizes of the range at the latest. Where the size behind them is no word, a
solver that finds nothing brings the search to a crash.
-/

namespace StrongCyclic

variable {σ : Type}

namespace SizeRange

variable {range : SizeRange} {k : Nat}

/-- The number of steps from the least size to the largest one that is tried. -/
def steps (range : SizeRange) : Nat :=
  (range.max - range.min) / Nat.max range.step 1

/-- The size behind the last one of the range is a 64-bit word. -/
def Fits (range : SizeRange) : Prop :=
  range.sizeFrom range.min (range.steps + 1) < Text.wordLimit

instance (range : SizeRange) : Decidable range.Fits :=
  Nat.decLt _ _

theorem isPast_sizeFrom_iff :
    range.isPast (range.sizeFrom range.min k) = true ↔ range.steps < k := by
  rw [Search.isPast_sizeFrom, steps, Nat.div_lt_iff_lt_mul range.step_pos, sizeFrom]
  cases k with
  | zero => simp
  | succ k =>
    have hstep : 0 < (k + 1) * Nat.max range.step 1 := Nat.mul_pos k.succ_pos range.step_pos
    omega

theorem Fits.sizeFrom_lt (h : range.Fits) (hk : k ≤ range.steps + 1) :
    range.sizeFrom range.min k < Text.wordLimit :=
  Nat.lt_of_le_of_lt (range.sizeFrom_le_sizeFrom _ hk) h

end SizeRange

namespace SolveOutcome

/-- The search has ended at the size: with a controller, or because time ran out. -/
def IsAt (size : Nat) (outcome : SolveOutcome) : Prop :=
  outcome = .timedOut size ∨ ∃ states output, outcome = .solved size states output

variable {size n states max : Nat} {output : Path}

theorem isAt_timedOut : IsAt size (.timedOut n) ↔ size = n := by
  simp [IsAt, eq_comm]

theorem isAt_solved : IsAt size (.solved n states output) ↔ size = n := by
  simp [IsAt, eq_comm]

theorem not_isAt_exhausted : ¬ IsAt size (.exhausted max) := by
  simp [IsAt]

end SolveOutcome

namespace Search

open FileTree Job

variable {solver : Solver σ} {plan : SearchPlan} {range : SizeRange} {deadline : Deadline}
  {n : Nat} {world after : World σ} {result : Except Failure SolveOutcome} {made : List Exchange}

/-- All sizes of the range have been called for, and none of the outputs states an answer. -/
def Exhausts (range : SizeRange) (result : Except Failure SolveOutcome) (made : List Exchange) :
    Prop :=
  result = .ok (.exhausted range.max) ∧ made.length = range.steps + 1 ∧
    ∀ x ∈ made, ∃ text, x.reply = .ok (.finished text) ∧ Unsettled text

/-- The attempt at a size of the range has ended the search. -/
def EndsInRange (solver : Solver σ) (plan : SearchPlan) (range : SizeRange) (deadline : Deadline)
    (result : Except Failure SolveOutcome) (after : World σ) (made : List Exchange) : Prop :=
  ∃ k ≤ range.steps, ∃ before trace, made.length = k + trace.length ∧
    AttemptRun solver plan deadline (range.sizeFrom range.min k) before (result.map some) after trace

/-- The search has crashed at the step from a size whose output states no answer. -/
def Overflows (range : SizeRange) (result : Except Failure SolveOutcome) (made : List Exchange) :
    Prop :=
  result = .error (.crash .overflow) ∧ Text.wordLimit ≤ range.sizeFrom range.min made.length ∧
    ∀ x ∈ made, ∃ text, x.reply = .ok (.finished text) ∧ Unsettled text

/-- The search has gone up the range: it has called for sizes of the range in order, each once, and is
over in one of three ways. The number of states of a controller is the size after its own. -/
structure Ascends (solver : Solver σ) (plan : SearchPlan) (range : SizeRange) (deadline : Deadline)
    (result : Except Failure SolveOutcome) (after : World σ) (made : List Exchange) : Prop where
  calls : made.map Exchange.call =
    (List.range made.length).map fun k => plan.call (range.sizeFrom range.min k)
  increasing : ((List.range made.length).map (range.sizeFrom range.min)).Pairwise (· < ·)
  atMost : made.length ≤ range.steps + 1
  ending : Exhausts range result made ∨ EndsInRange solver plan range deadline result after made ∨
    Overflows range result made
  states : ∀ size states output, result = .ok (.solved size states output) →
    states = size + 1 ∧ states < Text.wordLimit ∧
      size ∈ (List.range (range.steps + 1)).map (range.sizeFrom range.min)

/-- The search has stayed within 64-bit words: all its sums are words, so it has gone up the range to
the end of it, unless an attempt has ended it before. -/
structure StaysInWords (solver : Solver σ) (plan : SearchPlan) (range : SizeRange)
    (deadline : Deadline) (result : Except Failure SolveOutcome) (after : World σ)
    (made : List Exchange) : Prop where
  ascends : Ascends solver plan range deadline result after made
  sums : FitsWords range range.min made
  ending : Exhausts range result made ∨ EndsInRange solver plan range deadline result after made

/-! ### Going up -/

/-- A search comes to a size past the range, or a step of it is too large, or an attempt ends it. -/
theorem SizesRun.stops (h : SizesRun solver plan range deadline n world result after made) :
    (result = .ok (.exhausted range.max) ∧ range.isPast (range.sizeFrom n made.length) = true) ∨
      (∃ k before trace, range.isPast (range.sizeFrom n k) = false ∧
        made.length = k + trace.length ∧
        AttemptRun solver plan deadline (range.sizeFrom n k) before (result.map some) after trace) ∨
      result = .error (.crash .overflow) ∧ Text.wordLimit ≤ range.sizeFrom n made.length ∧
        ∀ x ∈ made, ∃ text, x.reply = .ok (.finished text) ∧ Unsettled text := by
  induction h with
  | @past n world hpast => exact .inl ⟨rfl, (range.sizeFrom_zero n).symm ▸ hpast⟩
  | @failed n world after failure trace hpast hattempt =>
    rw [← range.sizeFrom_zero n] at hpast hattempt
    exact .inr (.inl ⟨0, _, trace, hpast, (Nat.zero_add _).symm, hattempt⟩)
  | @ended n world after outcome trace hpast hattempt =>
    rw [← range.sizeFrom_zero n] at hpast hattempt
    exact .inr (.inl ⟨0, _, trace, hpast, (Nat.zero_add _).symm, hattempt⟩)
  | overflowed hpast hattempt hnext =>
    obtain ⟨text, answered, files, -, hunsettled, -, -, -, rfl⟩ := hattempt.passed
    exact .inr (.inr ⟨rfl, hnext, List.forall_mem_singleton.mpr ⟨text, rfl, hunsettled⟩⟩)
  | passed hpast hattempt hnext hrest ih =>
    obtain ⟨text, answered, files, -, hunsettled, -, -, -, rfl⟩ := hattempt.passed
    rw [List.singleton_append, List.length_cons]
    simp only [SizeRange.sizeFrom_next hnext] at ih
    obtain hexhausted | ⟨k, before, trace, hpast, hlength, hended⟩ | ⟨hcrash, hlimit, hmore⟩ := ih
    · exact .inl hexhausted
    · exact .inr (.inl ⟨k + 1, before, trace, hpast, by omega, hended⟩)
    · exact .inr (.inr
        ⟨hcrash, hlimit, List.forall_mem_cons.mpr ⟨⟨text, rfl, hunsettled⟩, hmore⟩⟩)

/-- What an attempt makes of the search that it ends. -/
theorem AttemptRun.outcome_eq {outcome : SolveOutcome}
    (h : AttemptRun solver plan deadline n world (.ok (some outcome)) after made) :
    outcome = .timedOut n ∨
      outcome = .solved n (n + 1) (plan.outputFile n) ∧ n + 1 < Text.wordLimit := by
  cases h with
  | expired => exact .inl rfl
  | called _ _ hsettles =>
    cases hsettles with
    | timedOut => exact .inl rfl
    | solved _ _ _ hstates => exact .inr ⟨rfl, hstates⟩

/-- A search ends at one of its sizes. -/
theorem SizesRun.exists_sizeFrom {size : Nat} {outcome : SolveOutcome}
    (h : SizesRun solver plan range deadline n world (.ok outcome) after made)
    (hsize : outcome.IsAt size) : ∃ k, size = range.sizeFrom n k := by
  obtain ⟨hresult, -⟩ | ⟨k, before, trace, -, -, hended⟩ | ⟨hresult, -⟩ := h.stops
  · cases hresult
    exact absurd hsize SolveOutcome.not_isAt_exhausted
  · refine ⟨k, ?_⟩
    obtain rfl | ⟨rfl, -⟩ := hended.outcome_eq
    · exact SolveOutcome.isAt_timedOut.mp hsize
    · exact SolveOutcome.isAt_solved.mp hsize
  · cases hresult

section Run

variable (h : SizesRun solver plan range deadline range.min world result after made)

include h

/-- The size after the last one of the range would be past the range. -/
theorem SizesRun.length_le : made.length ≤ range.steps + 1 := by
  by_contra hmore
  have hpast := (h.isExchange (List.getElem?_eq_getElem (Nat.lt_of_not_le hmore))).1
  rw [SizeRange.isPast_sizeFrom_iff.mpr (Nat.lt_succ_self _)] at hpast
  cases hpast

theorem SizesRun.ascends : Ascends solver plan range deadline result after made := by
  have hover : Exhausts range result made ∨ EndsInRange solver plan range deadline result after made ∨
      Overflows range result made := by
    obtain ⟨rfl, hpast⟩ | ⟨k, before, trace, hpast, hlength, hended⟩ | hoverflows := h.stops
    · have hsteps := SizeRange.isPast_sizeFrom_iff.mp hpast
      exact .inl ⟨rfl, Nat.le_antisymm h.length_le hsteps, h.unsettled_of_exhausted.2⟩
    · refine .inr (.inl ⟨k, Nat.le_of_not_lt fun hlt => ?_, before, trace, hlength, hended⟩)
      rw [SizeRange.isPast_sizeFrom_iff.mpr hlt] at hpast
      cases hpast
    · exact .inr (.inr hoverflows)
  refine ⟨h.map_call, ?_, h.length_le, hover, ?_⟩
  · exact List.pairwise_lt_range.map _ fun i k => range.sizeFrom_lt_sizeFrom _
  · rintro size states output rfl
    obtain ⟨hresult, -⟩ | ⟨k, hk, before, trace, -, hended⟩ | ⟨hresult, -⟩ := hover
    · cases hresult
    · obtain heq | ⟨heq, hstates⟩ := hended.outcome_eq
      · cases heq
      · cases heq
        exact ⟨rfl, hstates, List.mem_map_of_mem (List.mem_range.mpr (Nat.lt_succ_of_le hk))⟩
    · cases hresult

/-- In a range that fits no sum is too large. -/
theorem SizesRun.staysInWords (hfits : range.Fits) :
    StaysInWords solver plan range deadline result after made := by
  have hascends := h.ascends
  have hsum : ∀ k ≤ made.length, range.sizeFrom range.min k < Text.wordLimit :=
    fun k hk => hfits.sizeFrom_lt (Nat.le_trans hk h.length_le)
  refine ⟨hascends, fun k x text hx _ => ?_, ?_⟩
  · have hk : k + 1 ≤ made.length := (List.getElem?_eq_some_iff.mp hx).1
    exact ⟨fun _ => hsum _ hk,
      fun _ => Nat.lt_of_le_of_lt (range.sizeFrom_lt_sizeFrom _ k.lt_succ_self) (hsum _ hk)⟩
  · obtain hexhausts | hends | ⟨-, hlimit, -⟩ := hascends.ending
    · exact .inl hexhausts
    · exact .inr hends
    · exact absurd (hsum _ (Nat.le_refl _)) (Nat.not_lt.mpr hlimit)

end Run

/-! ### A solver that finds nothing -/

/-- The solver answers every call that there is no controller. -/
def findsNothing : Solver Unit :=
  fun _ _ => return .finished "UNSATISFIABLE\n"

/-- A world in which only the directory of `doorPlan` stands. -/
def emptyDoor : World Unit where
  files := ⟨[(["door"], .directory)], []⟩
  solver := ()
  clock := ⟨0⟩

theorem unsettled_unsatisfiable : Unsettled "UNSATISFIABLE\n" :=
  ⟨⟨.unsatisfiable, [], false⟩, by decide +kernel, rfl⟩

theorem leavesFiles_findsNothing : findsNothing.LeavesFiles :=
  fun _ _ _ => rfl

theorem SizesRun.reply_eq_of_findsNothing {world after : World Unit}
    (h : SizesRun findsNothing plan range deadline n world result after made)
    {x : Exchange} (hx : x ∈ made) : x.reply = .ok (.finished "UNSATISFIABLE\n") := by
  obtain ⟨before, rest, hmade⟩ := List.append_of_mem hx
  obtain ⟨m, seen, -, hmadeIn⟩ := h.reaches hmade
  exact hmadeIn.reply.symm

theorem entry?_outputPlace_emptyDoor (n : Nat) :
    emptyDoor.files.entry? (outputPlace ["door"] n) = none := by
  simp [emptyDoor, entry?, outputPlace]

/-- Of the ways to end only the one behind the range is left. -/
theorem Ending.isPast_of_unsettled {now : Duration} {old : Option Entry}
    {last : Option (Except Failure SolverRun)} {written : Option String} {text : String}
    (h : Ending plan range ⟨⟨0⟩, none⟩ n now old last result written)
    (hold : old ≠ some .directory) (htext : Unsettled text)
    (hlast : ∀ reply ∈ last, reply = .ok (.finished text)) :
    last = none ∧ range.isPast n = true := by
  cases h with
  | exhausted hpast => exact ⟨rfl, hpast⟩
  | expired _ hexpired => simp [Deadline.isExpired, Deadline.remaining] at hexpired
  | failed => exact nomatch hlast _ rfl
  | timedOut => exact nomatch hlast _ rfl
  | unreadable _ hread =>
    cases hlast _ rfl
    obtain ⟨out, hout, -⟩ := htext
    exact nomatch hread.symm.trans hout
  | solved _ hsolves =>
    cases hlast _ rfl
    exact absurd hsolves (not_solves_of_unsettled htext)
  | unmarked _ _ hblocked => exact absurd hblocked hold
  | unwritten _ hblocked => exact absurd hblocked hold

/-- A search with this solver goes up to the last size of the range and makes the step from there. -/
theorem SizesRun.fits_of_findsNothing {after : World Unit}
    (h : SizesRun findsNothing doorPlan range ⟨⟨0⟩, none⟩ range.min emptyDoor result after made)
    (hfit : FitsWords range range.min made) : range.Fits := by
  have hlocated : Located doorPlan ["door"] emptyDoor.files :=
    located_of_directory (by decide) (by decide) (by decide)
  obtain ⟨texts, last, written, hreplies, -, hending, -⟩ :=
    h.exists_ending leavesFiles_findsNothing hlocated hfit
  have hlast : ∀ reply ∈ last, reply = .ok (.finished "UNSATISFIABLE\n") := by
    intro reply hreply
    have hmem : reply ∈ made.map Exchange.reply := by simp [hreplies, Option.mem_def.mp hreply]
    obtain ⟨x, hx, rfl⟩ := List.mem_map.mp hmem
    exact h.reply_eq_of_findsNothing hx
  obtain ⟨rfl, hpast⟩ := hending.isPast_of_unsettled (by simp [entry?_outputPlace_emptyDoor])
    unsettled_unsatisfiable hlast
  rw [SizeRange.isPast_sizeFrom_iff] at hpast
  have hlength : made.length = texts.length := by simpa using congrArg List.length hreplies
  -- the call before has been followed by the step to this size
  have hx := List.getElem?_eq_getElem (l := made) (i := range.steps) (by omega)
  exact (hfit _ _ _ hx (h.reply_eq_of_findsNothing (List.mem_of_getElem? hx))).1
    unsettled_unsatisfiable

theorem fits_of_staysInWords
    (h : Traced (sizes findsNothing.recorded doorPlan range ⟨⟨0⟩, none⟩)
      (sizes findsNothing doorPlan range ⟨⟨0⟩, none⟩) emptyDoor
      (StaysInWords findsNothing doorPlan range ⟨⟨0⟩, none⟩)) : range.Fits := by
  obtain ⟨made, -, hrun, hstays⟩ :=
    (traced_sizesFrom findsNothing doorPlan range ⟨⟨0⟩, none⟩ range.min emptyDoor).and h
  exact hrun.fits_of_findsNothing hstays.sums

/-- Whatever the solver, the plan, the deadline and the world are, a search goes up the range. It stays
within words in all of them just if the range leaves room for one more step. -/
theorem sizes_staysInWords_iff (range : SizeRange) :
    (∀ (σ : Type) (solver : Solver σ) (plan : SearchPlan) (deadline : Deadline) (world : World σ),
        Traced (sizes solver.recorded plan range deadline) (sizes solver plan range deadline) world
          (Ascends solver plan range deadline)) ∧
      ((∀ (σ : Type) (solver : Solver σ) (plan : SearchPlan) (deadline : Deadline)
          (world : World σ),
          Traced (sizes solver.recorded plan range deadline) (sizes solver plan range deadline) world
            (StaysInWords solver plan range deadline)) ↔ range.Fits) := by
  refine ⟨fun σ solver plan deadline world => ?_, fun h => ?_, fun hfits σ solver plan deadline world
    => ?_⟩
  · exact (traced_sizesFrom solver plan range deadline range.min world).imp
      fun result after made hrun => hrun.ascends
  · exact fits_of_staysInWords (h Unit findsNothing doorPlan ⟨⟨0⟩, none⟩ emptyDoor)
  · exact (traced_sizesFrom solver plan range deadline range.min world).imp
      fun result after made hrun => hrun.staysInWords hfits

/-- Sizes from one on in the largest step that there is. -/
def farRange : SizeRange :=
  ⟨1, 18446744073709551615, 18446744073709551615⟩

/-- The step from the first size of this range is too large. -/
theorem not_forall_staysInWords :
    ¬ ∀ range : SizeRange, 1 ≤ range.min → range.min ≤ range.max → range.max < Text.wordLimit →
      1 ≤ range.step → range.step < Text.wordLimit →
      ∀ (σ : Type) (solver : Solver σ) (plan : SearchPlan) (deadline : Deadline) (world : World σ),
        Traced (sizes solver.recorded plan range deadline) (sizes solver plan range deadline) world
          (StaysInWords solver plan range deadline) := by
  intro h
  have hfits : farRange.Fits := fits_of_staysInWords (h farRange (by decide) (by decide) (by decide)
    (by decide) (by decide) Unit findsNothing doorPlan ⟨⟨0⟩, none⟩ emptyDoor)
  exact absurd hfits (by decide)

/-- The search has been at the size 1 and crashes before it comes to the answer of the next call. -/
example : ((sizes Solver.scripted doorPlan farRange ⟨⟨0⟩, none⟩).run.run doorWorld).1 =
    .error (.crash .overflow) := by
  decide +kernel

end Search

end StrongCyclic
