import StrongCyclic.Proofs.Run.Listing
import StrongCyclic.Proofs.Search.Attempt

/-!
What a size search leaves in its directory. Each attempt puts one file there, the output of its size:
what the solver has printed, or a text with the mark that the time ran out. `Leaves` says so of a part
of a search; parts are put together by `Leaves.trans`.
-/

namespace StrongCyclic.Search

open FileTree Job Place

variable {σ : Type} {directory : Place} {args : List String} {made more : List Exchange}
  {marked marked' : Nat → Prop} {n : Nat}

/-- The arguments of a call for a controller of a size, before those of the settings. -/
def sizeArgs (args : List String) (n : Nat) : List String :=
  "-c" :: ("numStates=" ++ toString n) :: args

theorem args_call (plan : SearchPlan) (n : Nat) : (plan.call n).args = sizeArgs plan.args n :=
  rfl

theorem sizeArgs_inj {m : Nat} : sizeArgs args n = sizeArgs args m ↔ n = m := by
  simp only [sizeArgs, List.cons.injEq, String.append_right_inj, true_and, and_true]
  exact ⟨Text.toString_injective, congrArg toString⟩

/-- There has been a call for the size, or the output of the size has been marked. -/
def Attempted (args : List String) (made : List Exchange) (marked : Nat → Prop) (n : Nat) : Prop :=
  (∃ x ∈ made, x.call.args = sizeArgs args n) ∨ marked n

/-- The text is what the solver has printed at a call for the size, or it has the mark that the time
ran out. -/
def IsOutput (args : List String) (made : List Exchange) (marked : Nat → Prop) (n : Nat)
    (text : String) : Prop :=
  (∃ x ∈ made, x.call.args = sizeArgs args n ∧ x.reply = .ok (.finished text)) ∨
    marked n ∧ Text.contains timedOutMark text = true

theorem attempted_append :
    Attempted args (made ++ more) (fun m => marked m ∨ marked' m) n ↔
      Attempted args made marked n ∨ Attempted args more marked' n := by
  simp only [Attempted, List.mem_append, or_and_right, exists_or]
  exact or_or_or_comm

theorem IsOutput.append_left {text : String} (h : IsOutput args made marked n text) :
    IsOutput args (made ++ more) (fun m => marked m ∨ marked' m) n text := by
  obtain ⟨x, hx, hreply⟩ | ⟨hmarked, hmark⟩ := h
  · exact .inl ⟨x, List.mem_append_left _ hx, hreply⟩
  · exact .inr ⟨.inl hmarked, hmark⟩

theorem IsOutput.append_right {text : String} (h : IsOutput args more marked' n text) :
    IsOutput args (made ++ more) (fun m => marked m ∨ marked' m) n text := by
  obtain ⟨x, hx, hreply⟩ | ⟨hmarked, hmark⟩ := h
  · exact .inl ⟨x, List.mem_append_right _ hx, hreply⟩
  · exact .inr ⟨.inr hmarked, hmark⟩

/-- The sizes attempted have got their outputs, and no other file has been touched. -/
structure Leaves (directory : Place) (args : List String) (made : List Exchange)
    (marked : Nat → Prop) (before after : FileTree) : Prop where
  names : ∀ name, name ∈ after.namesIn directory ↔
    name ∈ before.namesIn directory ∨
      ∃ n, Attempted args made marked n ∧ name = FileNames.attemptOutput n
  written : ∀ n, Attempted args made marked n → ∃ text,
    after.entry? (directory ++ [FileNames.attemptOutput n]) = some (.file text) ∧
      IsOutput args made marked n text
  kept : ∀ place,
    (∀ n, Attempted args made marked n → place ≠ directory ++ [FileNames.attemptOutput n]) →
      after.entry? place = before.entry? place

theorem leaves_nothing {tree : FileTree} (h : ∀ n, ¬ Attempted args made marked n) :
    Leaves directory args made marked tree tree where
  names name := by simp [h]
  written n hn := absurd hn (h n)
  kept _ _ := rfl

theorem leaves_put {tree : FileTree} {text : String}
    (hattempted : ∀ m, Attempted args made marked m ↔ m = n)
    (houtput : IsOutput args made marked n text) :
    Leaves directory args made marked tree
      (tree.put (directory ++ [FileNames.attemptOutput n]) (.file text)) where
  names name := by simp [mem_namesIn_put_iff, hattempted]
  written m hm := by
    obtain rfl := (hattempted m).mp hm
    exact ⟨text, entry?_put_self _ _ _ _, houtput⟩
  kept place hplace := entry?_put_of_ne (hplace n ((hattempted n).mpr rfl))

theorem Leaves.trans {before between after : FileTree}
    (h : Leaves directory args made marked before between)
    (hmore : Leaves directory args more marked' between after) :
    Leaves directory args (made ++ more) (fun m => marked m ∨ marked' m) before after where
  names name := by
    simp only [hmore.names, h.names, attempted_append, or_and_right, exists_or, or_assoc]
  written n hn := by
    by_cases hlater : Attempted args more marked' n
    · obtain ⟨text, hentry, houtput⟩ := hmore.written n hlater
      exact ⟨text, hentry, houtput.append_right⟩
    · obtain ⟨text, hentry, houtput⟩ := h.written n ((attempted_append.mp hn).resolve_right hlater)
      refine ⟨text, ?_, houtput.append_left⟩
      rw [hmore.kept, hentry]
      rintro m hm heq
      obtain rfl := FileNames.attemptOutput_injective (by simpa using heq)
      exact hlater hm
  kept place hplace := by
    rw [hmore.kept place fun n hn => hplace n (attempted_append.mpr (.inr hn)),
      h.kept place fun n hn => hplace n (attempted_append.mpr (.inl hn))]

theorem Leaves.congr {before after : FileTree} (h : Leaves directory args made marked before after)
    (hmarked : ∀ n, marked n ↔ marked' n) : Leaves directory args made marked' before after := by
  obtain rfl : marked = marked' := funext fun n => propext (hmarked n)
  exact h

section Attempts

variable {solver : Solver σ} {plan : SearchPlan} {range : SizeRange} {deadline : Deadline}
  {world after : World σ}
  (hsolver : solver.OnlyReplies) (hplace : Proper directory)
  (hplan : plan.directory = pathOf directory)

include hsolver hplace hplan

theorem eq_put_of_reply {call : SolverCall} {budget : Option Duration} {run : SolverRun}
    {answered : World σ} {text : String} {files : FileTree}
    (hreply : Returns (solver call budget) world run answered)
    (hwrite : answered.files.write (plan.outputFile n) text = .ok files) :
    files = world.files.put (directory ++ [FileNames.attemptOutput n]) (.file text) := by
  rw [SearchPlan.outputFile, hplan, hsolver _ _ hreply] at hwrite
  exact eq_put_of_write_join hplace (FileNames.isEntryName_attemptOutput n) hwrite

/-- An attempt leaves the output of its size. -/
theorem AttemptRun.leaves {outcome : Option SolveOutcome}
    (h : AttemptRun solver plan deadline n world (.ok outcome) after made) :
    Leaves directory plan.args made (fun m => outcome = some (.timedOut m)) world.files
      after.files := by
  have hname := FileNames.isEntryName_attemptOutput n
  cases h with
  | expired hexpired hmark =>
    rw [SearchPlan.outputFile, hplan] at hmark
    obtain ⟨old, rfl⟩ := exists_of_append_join hplace hname hmark
    refine leaves_put (fun m => by simp [Attempted, eq_comm]) (.inr ⟨rfl, ?_⟩)
    rw [markText, String.append_assoc, Text.contains_append]
  | called hinTime hreply hsettles =>
    cases hsettles with
    | timedOut hwrite hmark =>
      rw [eq_put_of_reply hsolver hplace hplan hreply hwrite, SearchPlan.outputFile, hplan] at hmark
      obtain ⟨old, rfl⟩ := exists_of_append_join hplace hname hmark
      rw [put_put]
      refine leaves_put (fun m => by simp [Attempted, args_call, sizeArgs_inj, eq_comm])
        (.inr ⟨rfl, ?_⟩)
      rw [markText, String.append_assoc, Text.contains_append]
    | solved hwrite hread hsat =>
      obtain rfl := eq_put_of_reply hsolver hplace hplan hreply hwrite
      exact leaves_put (fun m => by simp [Attempted, args_call, sizeArgs_inj, eq_comm])
        (.inl ⟨_, List.mem_singleton_self _, rfl, rfl⟩)
    | unsettled hwrite hunsettled =>
      obtain rfl := eq_put_of_reply hsolver hplace hplan hreply hwrite
      exact leaves_put (fun m => by simp [Attempted, args_call, sizeArgs_inj, eq_comm])
        (.inl ⟨_, List.mem_singleton_self _, rfl, rfl⟩)

/-- A search leaves the outputs of the sizes it has attempted. -/
theorem SizesRun.leaves {outcome : SolveOutcome}
    (h : SizesRun solver plan range deadline n world (.ok outcome) after made) :
    Leaves directory plan.args made (fun m => outcome = .timedOut m) world.files after.files := by
  generalize hresult : (Except.ok outcome : Except Failure SolveOutcome) = result at h
  induction h with
  | past =>
    cases hresult
    exact leaves_nothing (by simp [Attempted])
  | failed => cases hresult
  | ended _ hattempt =>
    cases hresult
    exact (hattempt.leaves hsolver hplace hplan).congr fun m => by simp
  | overflowed => cases hresult
  | passed _ hattempt _ _ ih =>
    exact ((hattempt.leaves hsolver hplace hplan).trans (ih hresult)).congr fun m => by simp

end Attempts

end StrongCyclic.Search
