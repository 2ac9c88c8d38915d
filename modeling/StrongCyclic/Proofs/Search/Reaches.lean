import StrongCyclic.Proofs.Disk.Frame
import StrongCyclic.Proofs.Search.Outputs

/-!
The worlds in which a size search makes its calls. A search comes to a call when the attempts before it
have been made, each of which has put the output of its size into the directory and touched no other
file.
-/

namespace StrongCyclic.Search

open FileTree Job Place

variable {σ : Type} {solver : Solver σ} {plan : SearchPlan} {range : SizeRange}
  {deadline : Deadline} {n m : Nat} {world seen after : World σ} {made before rest : List Exchange}
  {x : Exchange}

/-- A search from the size `n` on comes, with these calls, to the size `m` in the world `seen`. -/
inductive Reaches (solver : Solver σ) (plan : SearchPlan) (range : SizeRange)
    (deadline : Deadline) : Nat → World σ → List Exchange → Nat → World σ → Prop
  | start {n : Nat} {world : World σ} : Reaches solver plan range deadline n world [] n world
  | passed {n next m : Nat} {world between seen : World σ} {trace more : List Exchange}
    (hpast : range.isPast n = false)
    (hattempt : AttemptRun solver plan deadline n world (.ok none) between trace)
    (hnext : range.next n = .ok next)
    (hrest : Reaches solver plan range deadline next between more m seen) :
    Reaches solver plan range deadline n world (trace ++ more) m seen

/-- The call for the size is made in the world. -/
structure MadeIn (solver : Solver σ) (plan : SearchPlan) (deadline : Deadline) (n : Nat)
    (seen : World σ) (x : Exchange) : Prop where
  call : x.call = plan.call n
  budget : x.budget = deadline.remaining seen.clock
  time : x.time = seen.clock
  reply : ((solver x.call x.budget).run.run seen).1 = x.reply

theorem AttemptRun.madeIn {result : Except Failure (Option SolveOutcome)}
    (h : AttemptRun solver plan deadline n world result after made) (hx : x ∈ made) :
    made = [x] ∧ MadeIn solver plan deadline n world x := by
  cases h with
  | expired => cases hx
  | unmarked => cases hx
  | called hinTime hreply =>
    obtain rfl := List.mem_singleton.mp hx
    exact ⟨rfl, rfl, rfl, rfl, congrArg Prod.fst hreply⟩

/-- Every call of a search is made in a world that the search comes to. -/
theorem SizesRun.reaches {result : Except Failure SolveOutcome}
    (h : SizesRun solver plan range deadline n world result after made)
    (hmade : made = before ++ x :: rest) :
    ∃ m seen, Reaches solver plan range deadline n world before m seen ∧
      MadeIn solver plan deadline m seen x := by
  have hlast {n : Nat} {world after : World σ} {trace before : List Exchange}
      {result : Except Failure (Option SolveOutcome)}
      (hattempt : AttemptRun solver plan deadline n world result after trace)
      (htrace : trace = before ++ x :: rest) :
      ∃ m seen, Reaches solver plan range deadline n world before m seen ∧
        MadeIn solver plan deadline m seen x := by
    obtain ⟨hsingle, hmadeIn⟩ := hattempt.madeIn (x := x) (by simp [htrace])
    cases before with
    | nil => exact ⟨n, world, .start, hmadeIn⟩
    | cons y before => simp [htrace] at hsingle
  induction h generalizing before with
  | past => simp at hmade
  | failed hpast hattempt => exact hlast hattempt hmade
  | ended hpast hattempt => exact hlast hattempt hmade
  | overflowed hpast hattempt => exact hlast hattempt hmade
  | @passed n next world _ _ _ trace more hpast hattempt hnext hrest ih =>
    obtain ⟨text, answered, files, -, -, -, -, -, htrace⟩ := hattempt.passed
    cases before with
    | nil =>
      rw [htrace] at hmade
      obtain ⟨rfl, -⟩ := List.cons.inj hmade
      exact ⟨n, world, .start, (hattempt.madeIn (htrace ▸ List.mem_cons_self)).2⟩
    | cons y before =>
      rw [htrace] at hmade
      obtain ⟨rfl, hmore⟩ := List.cons.inj hmade
      obtain ⟨m, seen, hreaches, hmadeIn⟩ := ih hmore
      refine ⟨m, seen, ?_, hmadeIn⟩
      rw [htrace] at hattempt
      exact .passed hpast hattempt hnext hreaches

section Writing

variable {directory : Place} (hsolver : solver.OnlyReplies) (hplace : Proper directory)
  (hplan : plan.directory = pathOf directory)

include hsolver hplace hplan

/-- An attempt touches no file but the output of its size. -/
theorem AttemptRun.touches {outcome : Option SolveOutcome}
    (h : AttemptRun solver plan deadline n world (.ok outcome) after made) :
    Touches directory {FileNames.attemptOutput n} world.files after.files := by
  have hname := FileNames.isEntryName_attemptOutput n
  have halter {before after : FileTree} {f : Option String → String}
      (h : before.alter (plan.outputFile n) f = .ok after) :
      Touches directory {FileNames.attemptOutput n} before after := by
    rw [SearchPlan.outputFile, hplan] at h
    exact touches_of_alter hplace hname h
  cases h with
  | expired _ hmark => exact halter hmark
  | called hinTime hreply hsettles =>
    cases hsettles with
    | timedOut hwrite hmark =>
      rw [← hsolver _ _ hreply]
      exact (halter hwrite).append (halter hmark)
    | solved hwrite =>
      rw [← hsolver _ _ hreply]
      exact halter hwrite
    | unsettled hwrite =>
      rw [← hsolver _ _ hreply]
      exact halter hwrite

/-- A search touches no file but outputs of sizes. -/
theorem SizesRun.touches {outcome : SolveOutcome}
    (h : SizesRun solver plan range deadline n world (.ok outcome) after made) :
    Touches directory (Set.range FileNames.attemptOutput) world.files after.files := by
  have hone {n : Nat} {world after : World σ} {trace : List Exchange}
      {outcome : Option SolveOutcome}
      (h : AttemptRun solver plan deadline n world (.ok outcome) after trace) :
      Touches directory (Set.range FileNames.attemptOutput) world.files after.files :=
    (h.touches hsolver hplace hplan).mono (Set.singleton_subset_iff.mpr ⟨n, rfl⟩)
  generalize hresult : (Except.ok outcome : Except Failure SolveOutcome) = result at h
  induction h with
  | past => exact .refl _ _ _
  | failed => cases hresult
  | ended _ hattempt => exact hone hattempt
  | overflowed => cases hresult
  | passed _ hattempt _ _ ih => exact (hone hattempt).append (ih hresult)

/-- The names of the outputs of the sizes that have been called for. -/
def outputNames (args : List String) (made : List Exchange) : Set String :=
  {name | ∃ n, ∃ x ∈ made, x.call.args = sizeArgs args n ∧ FileNames.attemptOutput n = name}

omit hsolver hplace hplan in
theorem outputNames_append (args : List String) (made more : List Exchange) :
    outputNames args (made ++ more) = outputNames args made ∪ outputNames args more := by
  ext name
  simp [outputNames, or_and_right, exists_or]

theorem AttemptRun.passed_touches
    (h : AttemptRun solver plan deadline n world (.ok none) after made) :
    Touches directory (outputNames plan.args made) world.files after.files := by
  obtain ⟨text, answered, files, -, -, -, -, -, htrace⟩ := h.passed
  refine (h.touches hsolver hplace hplan).mono ?_
  rintro name rfl
  exact ⟨n, _, htrace ▸ List.mem_cons_self, args_call plan n, rfl⟩

theorem Reaches.touches (h : Reaches solver plan range deadline n world made m seen) :
    Touches directory (outputNames plan.args made) world.files seen.files := by
  induction h with
  | start => exact .refl _ _ _
  | passed _ hattempt _ _ ih =>
    rw [outputNames_append]
    exact (hattempt.passed_touches hsolver hplace hplan).trans ih

/-- The output of a size is what the solver has printed at the last call for it. -/
theorem Reaches.reads {earlier later : List Exchange} {size : Nat} {text : String}
    (h : Reaches solver plan range deadline n world made m seen)
    (hmade : made = earlier ++ x :: later) (hsize : x.call.args = sizeArgs plan.args size)
    (hlast : ∀ y ∈ later, y.call.args ≠ sizeArgs plan.args size)
    (hreply : x.reply = .ok (.finished text)) :
    seen.files.read ((pathOf directory).join (FileNames.attemptOutput size)) = .ok text := by
  have hname := FileNames.isEntryName_attemptOutput size
  induction h generalizing earlier with
  | start => simp at hmade
  | passed _ hattempt _ hrest ih =>
    obtain ⟨text', answered, files, -, -, -, hwrite, hafter, htrace⟩ := hattempt.passed
    rw [htrace] at hmade
    cases earlier with
    | nil =>
      obtain ⟨rfl, rfl⟩ := List.cons.inj hmade
      obtain rfl := sizeArgs_inj.mp ((args_call plan _).symm.trans hsize)
      cases hreply
      rw [SearchPlan.outputFile, hplan] at hwrite
      refine ((hrest.touches hsolver hplace hplan).read_join hplace hname ?_).mpr ?_
      · rintro ⟨k, y, hy, hargs, hsame⟩
        obtain rfl := FileNames.attemptOutput_injective hsame
        exact hlast y hy hargs
      · rw [hafter]
        exact read_of_write hwrite
    | cons y earlier => exact ih (List.cons.inj hmade).2

end Writing

end StrongCyclic.Search
