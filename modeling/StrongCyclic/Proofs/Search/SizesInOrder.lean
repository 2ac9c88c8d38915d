import StrongCyclic.Proofs.Search.Attempt

/-!
The size search as a whole. As long as the files can be written and the sizes stay below 2^64, the
solver is asked for the sizes `min`, `min + step`, `min + 2 * step`, … in this order, each once, up to
the first one at which the time has run out or the call does not answer that there is no controller.
The outputs end up in the files of their sizes, and no other file changes. `sizes_inOrder` puts this
together; `Ending` lists the six ways to end.
-/

namespace StrongCyclic

variable {σ : Type}

/-- The solver answers calls, or fails, without touching the files. -/
def Solver.LeavesFiles (solver : Solver σ) : Prop :=
  ∀ call budget world, ((solver call budget).run.run world).2.files = world.files

theorem Solver.LeavesFiles.files_eq {solver : Solver σ} {call : SolverCall}
    {budget : Option Duration} {reply : Except Failure SolverRun} {world answered : World σ}
    (h : solver.LeavesFiles) (hreply : (solver call budget).run.run world = (reply, answered)) :
    answered.files = world.files := by
  simpa only [hreply] using h call budget world

namespace Search

open Fallible FileTree Job Place

variable {solver : Solver σ} {plan : SearchPlan} {range : SizeRange} {deadline : Deadline}
  {directory : Place} {n : Nat}

/-! ### The output files -/

/-- The place of the output of the attempt at a size. -/
def outputPlace (directory : Place) (n : Nat) : Place :=
  directory ++ [FileNames.attemptOutput n]

theorem outputPlace_ne_nil (directory : Place) (n : Nat) : outputPlace directory n ≠ [] := by
  simp [outputPlace]

theorem outputPlace_injective {m n : Nat} (h : outputPlace directory m = outputPlace directory n) :
    m = n :=
  FileNames.attemptOutput_injective (by simpa [outputPlace] using h)

/-- The output files of the attempts belong to a directory, which is there. -/
def Located (plan : SearchPlan) (directory : Place) (tree : FileTree) : Prop :=
  ∀ n, tree.resolve (plan.outputFile n) = .ok (outputPlace directory n)

theorem located_of_directory {tree : FileTree} (hplace : Proper directory)
    (hplan : plan.directory = pathOf directory)
    (h : tree.locate (pathOf directory) = .ok (directory, .directory)) :
    Located plan directory tree := by
  intro n
  obtain ⟨hresolve, hdirectory⟩ := locate_eq_ok.mp h
  rw [SearchPlan.outputFile, hplan]
  exact resolve_join_of_directory hplace (FileNames.isEntryName_attemptOutput n)
    (fun _ => FileNames.toNat_ne_zero_of_mem_attemptOutput) hresolve hdirectory

theorem Located.put {tree : FileTree} (h : Located plan directory tree)
    (hfree : tree.entry? (outputPlace directory n) ≠ some .directory) (text : String) :
    Located plan directory (tree.put (outputPlace directory n) (.file text)) :=
  fun m => resolve_put hfree (h m)

/-- An output is written to its place, unless there is a directory in its place. -/
theorem Located.write {tree : FileTree} (h : Located plan directory tree) (n : Nat) (text : String) :
    (tree.entry? (outputPlace directory n) = some .directory ∧
        tree.write (plan.outputFile n) text = .error .isADirectory) ∨
      (tree.entry? (outputPlace directory n) ≠ some .directory ∧
        tree.write (plan.outputFile n) text =
          .ok (tree.put (outputPlace directory n) (.file text))) := by
  by_cases hfree : tree.entry? (outputPlace directory n) = some .directory
  · exact .inl ⟨hfree, alter_of_directory (h n) hfree⟩
  · exact .inr ⟨hfree, write_of_resolve (h n) hfree⟩

theorem Located.eq_put {tree files : FileTree} {text : String} (h : Located plan directory tree)
    (hwrite : tree.write (plan.outputFile n) text = .ok files) :
    tree.entry? (outputPlace directory n) ≠ some .directory ∧
      files = tree.put (outputPlace directory n) (.file text) := by
  obtain ⟨-, herror⟩ | ⟨hfree, hok⟩ := h.write n text
  · exact nomatch herror.symm.trans hwrite
  · exact ⟨hfree, Except.ok.inj (hwrite.symm.trans hok)⟩

theorem Located.append {tree : FileTree} (h : Located plan directory tree) (n : Nat)
    (text : String) :
    (tree.entry? (outputPlace directory n) = some .directory ∧
        tree.append (plan.outputFile n) text = .error .isADirectory) ∨
      (tree.entry? (outputPlace directory n) ≠ some .directory ∧
        tree.append (plan.outputFile n) text = .ok (tree.put (outputPlace directory n)
          (.file (textOf (tree.entry? (outputPlace directory n)) ++ text)))) := by
  by_cases hfree : tree.entry? (outputPlace directory n) = some .directory
  · exact .inl ⟨hfree, alter_of_directory (h n) hfree⟩
  · exact .inr ⟨hfree, append_of_resolve (h n) hfree⟩

theorem Located.append_put {tree : FileTree} (h : Located plan directory tree)
    (hfree : tree.entry? (outputPlace directory n) ≠ some .directory) (text more : String) :
    FileTree.append (tree.put (outputPlace directory n) (.file text)) (plan.outputFile n) more =
      .ok (tree.put (outputPlace directory n) (.file (text ++ more))) := by
  have hentry : FileTree.entry? (tree.put (outputPlace directory n) (.file text))
      (outputPlace directory n) = some (.file text) := entry?_put_self _ _ _ _
  rw [append_of_resolve (h.put hfree text n) (by simp [hentry]), hentry, put_put, textOf]

/-- The outputs of the sizes `size 0`, `size 1`, … have become the texts; no other file changed. -/
structure Outputs (directory : Place) (size : Nat → Nat) (texts : List String)
    (before after : FileTree) : Prop where
  written : ∀ k text, texts[k]? = some text →
    after.entry? (outputPlace directory (size k)) = some (.file text)
  kept : ∀ place, (∀ k < texts.length, place ≠ outputPlace directory (size k)) →
    after.entry? place = before.entry? place

theorem Outputs.nil {size : Nat → Nat} {tree : FileTree} : Outputs directory size [] tree tree where
  written k text h := by cases h
  kept place _ := rfl

/-- An output of another size has been written first. -/
theorem Outputs.cons {size : Nat → Nat} {first : Nat} {text : String} {texts : List String}
    {before after : FileTree}
    (h : Outputs directory (fun k => size (k + 1)) texts
      (before.put (outputPlace directory first) (.file text)) after)
    (hfirst : size 0 = first) (hne : ∀ k < texts.length, size (k + 1) ≠ first) :
    Outputs directory size (text :: texts) before after where
  written k text' htext := by
    cases k with
    | zero =>
      obtain rfl := Option.some.inj htext
      rw [hfirst, h.kept _ fun k hk heq => hne k hk (outputPlace_injective heq).symm,
        entry?_put _ _ _ (outputPlace_ne_nil _ _), if_pos rfl]
    | succ k => exact h.written k text' htext
  kept place hplace := by
    have hplace_ne : place ≠ outputPlace directory first := hfirst ▸ hplace 0 (by simp)
    rw [h.kept place fun k hk => hplace (k + 1) (by simpa using hk), entry?_put_of_ne hplace_ne]

theorem Outputs.single {size : Nat → Nat} {first : Nat} {text : String} {tree : FileTree}
    (hfirst : size 0 = first) :
    Outputs directory size [text] tree (tree.put (outputPlace directory first) (.file text)) :=
  .cons .nil hfirst fun _ hk => absurd hk (Nat.not_lt_zero _)

/-! ### The ending -/

/-- How the search ends at the size `n`: the reply to its call, if it was made, the result, and the
text that the output file gets, if it gets one. Before the search `old` was in the place of the
file. -/
inductive Ending (plan : SearchPlan) (range : SizeRange) (deadline : Deadline) (n : Nat)
    (now : Duration) (old : Option Entry) :
    Option (Except Failure SolverRun) → Except Failure SolveOutcome → Option String → Prop
  | exhausted (hpast : range.isPast n = true) :
    Ending plan range deadline n now old none (.ok (.exhausted range.max)) none
  | expired (hpast : range.isPast n = false) (hexpired : deadline.isExpired now = true)
    (hfree : old ≠ some .directory) :
    Ending plan range deadline n now old none (.ok (.timedOut n))
      (some (textOf old ++ markText deadline))
  | failed (failure : Failure) :
    Ending plan range deadline n now old (some (.error failure)) (.error failure) none
  | timedOut (text : String) (hfree : old ≠ some .directory) :
    Ending plan range deadline n now old (some (.ok (.timedOut text))) (.ok (.timedOut n))
      (some (text ++ markText deadline))
  | unreadable {text : String} {failure : Failure} (hfree : old ≠ some .directory)
    (hread : readOutput text = .error failure) :
    Ending plan range deadline n now old (some (.ok (.finished text))) (.error failure) (some text)
  | solved {text : String} (hfree : old ≠ some .directory) (hsolves : Solves text) :
    Ending plan range deadline n now old (some (.ok (.finished text)))
      (.ok (.solved n (n + 1) (plan.outputFile n))) (some text)
  /-- The file cannot be written. -/
  | unmarked (hpast : range.isPast n = false) (hexpired : deadline.isExpired now = true)
    (hblocked : old = some .directory) :
    Ending plan range deadline n now old none (.error (.file .isADirectory)) none
  | unwritten (run : SolverRun) (hblocked : old = some .directory) :
    Ending plan range deadline n now old (some (.ok run)) (.error (.file .isADirectory)) none

/-- The search has asked for the sizes of the range in order: after each call but the last one the
output, one of `texts`, states no answer, and the search ends at the size after these. -/
structure InOrder (plan : SearchPlan) (range : SizeRange) (deadline : Deadline) (directory : Place)
    (world : World σ) (result : Except Failure SolveOutcome) (after : World σ)
    (made : List Exchange) (texts : List String) (last : Option (Except Failure SolverRun))
    (written : Option String) : Prop where
  calls : made.map Exchange.call =
    (List.range made.length).map fun k => plan.call (range.sizeFrom range.min k)
  inRange : ∀ k < made.length, k ≠ 0 → range.sizeFrom range.min k ≤ range.max
  inTime : ∀ x ∈ made, x.budget = deadline.remaining x.time ∧ deadline.isExpired x.time = false
  asked : deadline.isExpired world.clock = false → made ≠ []
  replies : made.map Exchange.reply =
    texts.map (fun text => .ok (.finished text)) ++ last.toList
  unsettled : ∀ text ∈ texts, Unsettled text
  ending : Ending plan range deadline (range.sizeFrom range.min texts.length) after.clock
    (world.files.entry? (outputPlace directory (range.sizeFrom range.min texts.length))) last result
    written
  exhausted_iff : result = .ok (.exhausted range.max) ↔
    texts ≠ [] ∧ range.max < range.sizeFrom range.min texts.length
  outputs : Outputs directory (range.sizeFrom range.min) (texts ++ written.toList) world.files
    after.files

section Run

variable {world after : World σ} {result : Except Failure SolveOutcome}
  {made : List Exchange}

/-- The sums that the search makes after its calls stay below 2^64: the next size after an output
without an answer, the number of states after one with an answer. -/
def FitsWords (range : SizeRange) (first : Nat) (made : List Exchange) : Prop :=
  ∀ k x text, made[k]? = some x → x.reply = .ok (.finished text) →
    (Unsettled text → range.sizeFrom first (k + 1) < Text.wordLimit) ∧
      (Solves text → range.sizeFrom first k + 1 < Text.wordLimit)

theorem FitsWords.tail {first next : Nat} {x : Exchange} {more : List Exchange}
    (h : FitsWords range first (x :: more)) (hnext : range.next first = .ok next) :
    FitsWords range next more := by
  intro k y text hy hreply
  rw [SizeRange.sizeFrom_next hnext, SizeRange.sizeFrom_next hnext]
  exact h (k + 1) y text hy hreply

/-- The sums fit if a step from each size of the range does. -/
theorem SizesRun.fitsWords
    (hrange : ∀ m, range.isPast m = false → m + Nat.max range.step 1 < Text.wordLimit)
    (h : SizesRun solver plan range deadline n world result after made) :
    FitsWords range n made := by
  intro k x text hx _
  have hsum : range.sizeFrom n (k + 1) < Text.wordLimit := by
    rw [SizeRange.sizeFrom_succ]
    exact hrange _ (h.isExchange hx).1
  exact ⟨fun _ => hsum,
    fun _ => Nat.lt_of_le_of_lt (range.sizeFrom_lt_sizeFrom n k.lt_succ_self) hsum⟩

/-- What becomes of the reply that ends the search. -/
theorem Settles.exists_ending {answered : World σ} {reply : Except Failure SolverRun}
    (hlocated : Located plan directory answered.files)
    (hfit : ∀ text, reply = .ok (.finished text) → Solves text → n + 1 < Text.wordLimit)
    (h : Settles plan deadline n answered reply (result.map some) after) :
    ∃ written, Ending plan range deadline n after.clock
        (answered.files.entry? (outputPlace directory n)) (some reply) result written ∧
      Outputs directory (range.sizeFrom n) written.toList answered.files after.files := by
  have hzero := range.sizeFrom_zero n
  generalize hresult : result.map some = found at h
  cases h with
  | failed =>
    obtain rfl := map_eq_error.mp hresult
    exact ⟨none, .failed _, .nil⟩
  | @unwritten run fault hwrite =>
    obtain rfl := map_eq_error.mp hresult
    obtain ⟨hblocked, herror⟩ | ⟨-, hok⟩ := hlocated.write n run.stdout
    · obtain rfl := Except.error.inj (herror.symm.trans hwrite)
      exact ⟨none, .unwritten run hblocked, .nil⟩
    · exact nomatch hok.symm.trans hwrite
  | timedOut hwrite hmark =>
    obtain ⟨outcome, rfl, heq⟩ := map_eq_ok.mp hresult
    obtain rfl := Option.some.inj heq
    obtain ⟨hfree, rfl⟩ := hlocated.eq_put hwrite
    obtain rfl := Except.ok.inj ((hlocated.append_put hfree _ _).symm.trans hmark)
    exact ⟨_, .timedOut _ hfree, .single hzero⟩
  | unmarked hwrite hmark =>
    obtain ⟨hfree, rfl⟩ := hlocated.eq_put hwrite
    exact nomatch (hlocated.append_put hfree _ _).symm.trans hmark
  | unreadable hwrite hread =>
    obtain rfl := map_eq_error.mp hresult
    obtain ⟨hfree, rfl⟩ := hlocated.eq_put hwrite
    exact ⟨_, .unreadable hfree hread, .single hzero⟩
  | solved hwrite hread hsat =>
    obtain ⟨outcome, rfl, heq⟩ := map_eq_ok.mp hresult
    obtain rfl := Option.some.inj heq
    obtain ⟨hfree, rfl⟩ := hlocated.eq_put hwrite
    exact ⟨_, .solved hfree ⟨_, hread, hsat⟩, .single hzero⟩
  | overflowed hwrite hread hsat hstates =>
    exact absurd (hfit _ rfl ⟨_, hread, hsat⟩) (Nat.not_lt.mpr hstates)
  | unsettled =>
    obtain ⟨outcome, -, heq⟩ := map_eq_ok.mp hresult
    cases heq

/-- What an attempt that ends the search does to its output file, and how it ends. -/
theorem AttemptRun.exists_ending (result : Except Failure SolveOutcome)
    (hsolver : solver.LeavesFiles)
    (hlocated : Located plan directory world.files) (hfit : FitsWords range n made)
    (hpast : range.isPast n = false)
    (h : AttemptRun solver plan deadline n world (result.map some) after made) :
    ∃ last written, made.map Exchange.reply = last.toList ∧
      Ending plan range deadline n after.clock (world.files.entry? (outputPlace directory n)) last
        result written ∧
      Outputs directory (range.sizeFrom n) written.toList world.files after.files := by
  generalize hresult : result.map some = found at h
  cases h with
  | expired hexpired hmark =>
    obtain ⟨outcome, rfl, heq⟩ := map_eq_ok.mp hresult
    obtain rfl := Option.some.inj heq
    obtain ⟨-, herror⟩ | ⟨hfree, hok⟩ := hlocated.append n (markText deadline)
    · exact nomatch herror.symm.trans hmark
    · obtain rfl := Except.ok.inj (hok.symm.trans hmark)
      exact ⟨none, _, rfl, .expired hpast hexpired hfree, .single (range.sizeFrom_zero n)⟩
  | unmarked hexpired hmark =>
    obtain rfl := map_eq_error.mp hresult
    obtain ⟨hblocked, herror⟩ | ⟨-, hok⟩ := hlocated.append n (markText deadline)
    · obtain rfl := Except.error.inj (herror.symm.trans hmark)
      exact ⟨none, none, rfl, .unmarked hpast hexpired hblocked, .nil⟩
    · exact nomatch hok.symm.trans hmark
  | called hinTime hreply hsettles =>
    obtain rfl := hresult
    rw [← hsolver.files_eq hreply] at hlocated ⊢
    obtain ⟨written, hending, houtputs⟩ := hsettles.exists_ending hlocated
      fun text heq hsolves => range.sizeFrom_zero n ▸ (hfit 0 _ text rfl heq).2 hsolves
    exact ⟨some _, written, rfl, hending, houtputs⟩

/-- What the search does to the output files, and how it ends. -/
theorem SizesRun.exists_ending (hsolver : solver.LeavesFiles)
    (hlocated : Located plan directory world.files) (hfit : FitsWords range n made)
    (h : SizesRun solver plan range deadline n world result after made) :
    ∃ texts last written,
      made.map Exchange.reply = texts.map (fun text => .ok (.finished text)) ++ last.toList ∧
      (∀ text ∈ texts, Unsettled text) ∧
      Ending plan range deadline (range.sizeFrom n texts.length) after.clock
        (world.files.entry? (outputPlace directory (range.sizeFrom n texts.length))) last result
        written ∧
      Outputs directory (range.sizeFrom n) (texts ++ written.toList) world.files after.files := by
  induction h with
  | @past n world hpast =>
    exact ⟨[], none, none, rfl, by simp, .exhausted ((range.sizeFrom_zero n).symm ▸ hpast), .nil⟩
  | @failed n world after failure trace hpast hattempt =>
    obtain ⟨last, written, hreplies, hending, houtputs⟩ :=
      hattempt.exists_ending (.error _) hsolver hlocated hfit hpast
    exact ⟨[], last, written, hreplies, by simp, (range.sizeFrom_zero n).symm ▸ hending, houtputs⟩
  | @ended n world after outcome trace hpast hattempt =>
    obtain ⟨last, written, hreplies, hending, houtputs⟩ :=
      hattempt.exists_ending (.ok _) hsolver hlocated hfit hpast
    exact ⟨[], last, written, hreplies, by simp, (range.sizeFrom_zero n).symm ▸ hending, houtputs⟩
  | overflowed hpast hattempt hnext =>
    obtain ⟨text, answered, files, -, hunsettled, -, -, -, rfl⟩ := hattempt.passed
    exact absurd ((hfit 0 _ text rfl rfl).1 hunsettled) (Nat.not_lt.mpr hnext)
  | @passed n next world between after result trace more hpast hattempt hnext hrest ih =>
    obtain ⟨text, answered, files, -, hunsettled, hreply, hwrite, rfl, rfl⟩ := hattempt.passed
    rw [hsolver.files_eq hreply] at hwrite
    obtain ⟨hfree, rfl⟩ := hlocated.eq_put hwrite
    have hsizes : range.sizeFrom next = fun k => range.sizeFrom n (k + 1) :=
      funext (SizeRange.sizeFrom_next hnext)
    have hlater : ∀ k, range.sizeFrom n (k + 1) ≠ n := fun k =>
      Nat.ne_of_gt (range.lt_sizeFrom_succ n k)
    obtain ⟨texts, last, written, hreplies, hmore, hending, houtputs⟩ :=
      ih (hlocated.put hfree text) (hfit.tail hnext)
    rw [hsizes] at hending houtputs
    refine ⟨text :: texts, last, written, by simp [hreplies],
      List.forall_mem_cons.mpr ⟨hunsettled, hmore⟩, ?_,
      .cons houtputs (range.sizeFrom_zero n) fun k _ => hlater k⟩
    rw [entry?_put_of_ne fun heq => hlater _ (outputPlace_injective heq)] at hending
    exact hending

theorem Ending.exhausted_iff {now : Duration} {old : Option Entry}
    {last : Option (Except Failure SolverRun)} {written : Option String}
    (h : Ending plan range deadline n now old last result written)
    (hlast : last ≠ none → range.isPast n = false) :
    result = .ok (.exhausted range.max) ↔ range.isPast n = true := by
  cases h <;> simp_all

/-- Unless the time has run out, the first size is asked for. -/
theorem SizesRun.ne_nil (h : SizesRun solver plan range deadline n world result after made)
    (hpast : range.isPast n = false) (hinTime : deadline.isExpired world.clock = false) : made ≠ [] := by
  cases h with
  | past h => exact absurd h (by simp [hpast])
  | failed _ hattempt => exact hattempt.ne_nil hinTime
  | ended _ hattempt => exact hattempt.ne_nil hinTime
  | overflowed _ hattempt => exact hattempt.ne_nil hinTime
  | passed _ hattempt => exact List.append_ne_nil_of_left_ne_nil (hattempt.ne_nil hinTime) _

end Run

theorem isPast_sizeFrom {k : Nat} :
    range.isPast (range.sizeFrom range.min k) = true ↔
      k ≠ 0 ∧ range.max < range.sizeFrom range.min k := by
  cases k with
  | zero => simp [SizeRange.isPast]
  | succ k =>
    have hlt := range.lt_sizeFrom_succ range.min k
    simp [SizeRange.isPast, Nat.ne_of_gt hlt]

/-- The calls of the search, its ending and the files it leaves. -/
theorem sizes_inOrder (hsolver : solver.LeavesFiles) {world : World σ}
    (hlocated : Located plan directory world.files) :
    Traced (sizes solver.recorded plan range deadline) (sizes solver plan range deadline) world
      fun result after made => FitsWords range range.min made →
        ∃ texts last written,
          InOrder plan range deadline directory world result after made texts last written := by
  refine (traced_sizesFrom solver plan range deadline range.min world).imp
    fun result after made hrun hfit => ?_
  obtain ⟨texts, last, written, hreplies, hunsettled, hending, houtputs⟩ :=
    hrun.exists_ending hsolver hlocated hfit
  have hpast : ∀ k < made.length, range.isPast (range.sizeFrom range.min k) = false :=
    fun k hk => (hrun.isExchange (List.getElem?_eq_getElem hk)).1
  have hlength : made.length = texts.length + last.toList.length := by
    simpa using congrArg List.length hreplies
  refine ⟨texts, last, written, hrun.map_call, ?_, ?_, ?_, hreplies, hunsettled, hending, ?_,
    houtputs⟩
  · intro k hk hne
    by_contra hgt
    have hbeyond := isPast_sizeFrom.mpr ⟨hne, Nat.lt_of_not_le hgt⟩
    rw [hpast k hk] at hbeyond
    cases hbeyond
  · intro x hx
    obtain ⟨k, hk, rfl⟩ := List.mem_iff_getElem.mp hx
    exact (hrun.isExchange (List.getElem?_eq_getElem hk)).2.2
  · exact hrun.ne_nil (by simp [SizeRange.isPast])
  · rw [hending.exhausted_iff, isPast_sizeFrom, ne_eq, List.length_eq_zero_iff]
    intro hlast
    obtain ⟨reply, rfl⟩ := Option.ne_none_iff_exists'.mp hlast
    exact hpast _ (by simp [hlength])

/-! ### Two sizes -/

theorem leavesFiles_scripted : Solver.scripted.LeavesFiles :=
  fun _ _ _ => rfl

/-- A search in a directory that holds nothing but its programs. -/
def doorPlan : SearchPlan where
  controllerModel := ⟨"/door/controller.lp"⟩
  instanceFile := ⟨"/door/instance.lp"⟩
  constraints := []
  args := []
  directory := ⟨"/door"⟩

/-- A directory with an old output, and a solver that has an answer to its second call. -/
def doorWorld : World Solver.Script where
  files := ⟨[(["door"], .directory), (["door", "clingo_out_2.out"], .file "old")], []⟩
  solver := ⟨[.run (.finished "UNSATISFIABLE\n"),
    .run (.finished "Answer: 1\nholds(0,0,0)\nSATISFIABLE\n")], []⟩
  clock := ⟨0⟩

theorem sizes_doorWorld :
    ((sizes Solver.scripted doorPlan ⟨1, 4, 0⟩ ⟨⟨0⟩, none⟩).run.run doorWorld).1 =
      .ok (.solved 2 3 ⟨"/door/clingo_out_2.out"⟩) := by
  decide +kernel

theorem sizes_inOrder_doorWorld :
    Traced (sizes Solver.scripted.recorded doorPlan ⟨1, 4, 0⟩ ⟨⟨0⟩, none⟩)
      (sizes Solver.scripted doorPlan ⟨1, 4, 0⟩ ⟨⟨0⟩, none⟩) doorWorld
      fun result after made => result = .ok (.solved 2 3 ⟨"/door/clingo_out_2.out"⟩) ∧
        FitsWords ⟨1, 4, 0⟩ 1 made ∧ ∃ texts last written,
          InOrder doorPlan ⟨1, 4, 0⟩ ⟨⟨0⟩, none⟩ ["door"] doorWorld result after made texts last
            written := by
  have hlocated : Located doorPlan ["door"] doorWorld.files :=
    located_of_directory (by decide) (by decide) (by decide)
  have hrange : ∀ m, SizeRange.isPast ⟨1, 4, 0⟩ m = false → m + 1 < Text.wordLimit := by
    intro m hm
    have hle : m = 1 ∨ m ≤ 4 := by simpa [SizeRange.isPast, or_iff_not_imp_left] using hm
    simp only [Text.wordLimit]
    omega
  obtain ⟨made, hrun, hsizes, hinOrder⟩ :=
    (traced_sizesFrom Solver.scripted doorPlan ⟨1, 4, 0⟩ ⟨⟨0⟩, none⟩ 1
      doorWorld).and (sizes_inOrder leavesFiles_scripted hlocated)
  have hfit := hsizes.fitsWords hrange
  exact ⟨made, hrun, sizes_doorWorld, hfit, hinOrder hfit⟩

end Search

end StrongCyclic
