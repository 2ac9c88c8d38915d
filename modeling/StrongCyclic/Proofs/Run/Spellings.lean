import StrongCyclic.Proofs.Controller.Built
import StrongCyclic.Proofs.Run.Directory
import StrongCyclic.Proofs.Text.Spelling
import StrongCyclic.Proofs.Verification.StrongCyclicity

/-!
Tags of outcomes and names of outputs are read as numbers but looked up as texts. A tag or a name
with another spelling of the number is read too: a controller with such a tag is accepted, although
verification never follows the transition, and of two outputs whose names spell the same largest
size the check takes the one that is listed first.
-/

namespace StrongCyclic

open Text

/-! ### Reading -/

theorem outcomeIndex?_eq_some_iff {tag : String} {index : Nat} :
    outcomeIndex? tag = some index ↔
      index + 1 < wordLimit ∧ ∃ s, Spells s (index + 1) ∧ tag = "e" ++ s := by
  constructor
  · intro h
    unfold outcomeIndex? at h
    split at h
    · next number hnumber =>
      obtain rfl : number = index := Option.some.inj h
      obtain ⟨s, hafter, hs⟩ := Option.bind_eq_some_iff.mp hnumber
      obtain ⟨hlt, hspells⟩ := natural?_eq_some_iff.mp hs
      exact ⟨hlt, s, hspells, eq_append_of_afterPrefix? hafter⟩
    · cases h
  · rintro ⟨hlt, s, hspells, rfl⟩
    rw [outcomeIndex?, afterPrefix?_append, Option.bind_some,
      natural?_eq_some_iff.mpr ⟨hlt, hspells⟩]

theorem eq_of_outcomeIndex?_outcomeTag {index number : Nat}
    (h : outcomeIndex? (outcomeTag index) = some number) : number = index := by
  obtain ⟨hlt, s, hspells, heq⟩ := outcomeIndex?_eq_some_iff.mp h
  rw [outcomeTag, String.append_right_inj] at heq
  subst heq
  have hread := natural?_eq_some_iff.mpr ⟨hlt, hspells⟩
  rw [natural?_toString_eq, below?_eq_some_iff] at hread
  exact (Nat.succ.inj (Option.some.inj hread.1)).symm

theorem FileNames.attemptSize?_eq_some_iff {name : String} {size : Nat} :
    attemptSize? name = some size ↔
      size < wordLimit ∧ ∃ s, Spells s size ∧ name = "clingo_out_" ++ s ++ ".out" := by
  constructor
  · intro h
    obtain ⟨s, hname, hs⟩ := exists_of_attemptSize? h
    obtain ⟨hlt, hspells⟩ := natural?_eq_some_iff.mp hs
    exact ⟨hlt, s, hspells, hname⟩
  · rintro ⟨hlt, s, hspells, rfl⟩
    rw [attemptSize?_attempt, natural?_eq_some_iff.mpr ⟨hlt, hspells⟩]

/-! ### Misspelt texts -/

/-- Where the numeral of a number would be given out, another spelling of it stands. -/
def Misspelt (write : String → String) (number : Nat → Nat) (text : String) : Prop :=
  ∃ n s, number n < wordLimit ∧ Spells s (number n) ∧ s ≠ toString (number n) ∧ text = write s

/-- A reader that takes every spelling takes just what is given out, but for the misspelt texts. -/
theorem exact_iff_not_misspelt {read : String → Option Nat} {write : String → String}
    {number : Nat → Nat} (hwrite : ∀ s s', write s = write s' → s = s')
    (hread : ∀ text n, read text = some n ↔
      number n < wordLimit ∧ ∃ s, Spells s (number n) ∧ text = write s) (text : String) :
    (∀ n, number n < wordLimit → (read text = some n ↔ text = write (toString (number n)))) ↔
      ¬ Misspelt write number text := by
  constructor
  · rintro h ⟨n, s, hlt, hspells, hne, rfl⟩
    have hwritten := (h n hlt).mp ((hread _ n).mpr ⟨hlt, s, hspells, rfl⟩)
    exact hne (hwrite _ _ hwritten)
  · intro h n hlt
    constructor
    · intro hn
      obtain ⟨-, s, hspells, rfl⟩ := (hread _ n).mp hn
      by_contra hne
      exact h ⟨n, s, hlt, hspells, fun heq => hne (heq ▸ rfl), rfl⟩
    · rintro rfl
      exact (hread _ n).mpr ⟨hlt, _, spells_toString _, rfl⟩

/-- The tag is misspelt. -/
def MisspeltTag : String → Prop :=
  Misspelt ("e" ++ ·) (· + 1)

/-- The name of an output is misspelt. -/
def MisspeltName : String → Prop :=
  Misspelt ("clingo_out_" ++ · ++ ".out") id

theorem exact_outcomeIndex?_iff (tag : String) :
    (∀ index, index + 1 < wordLimit → (outcomeIndex? tag = some index ↔ tag = outcomeTag index)) ↔
      ¬ MisspeltTag tag :=
  exact_iff_not_misspelt (fun _ _ => (String.append_right_inj _).mp)
    (fun _ _ => outcomeIndex?_eq_some_iff) tag

theorem exact_attemptSize?_iff (name : String) :
    (∀ size, size < wordLimit →
      (FileNames.attemptSize? name = some size ↔ name = FileNames.attemptOutput size)) ↔
      ¬ MisspeltName name :=
  exact_iff_not_misspelt
    (fun _ _ h => (String.append_right_inj _).mp ((String.append_left_inj _).mp h))
    (fun _ _ => FileNames.attemptSize?_eq_some_iff) name

/-- A tag that is read is the tag of an outcome just if it is not misspelt. -/
theorem exists_outcomeTag_iff {tag : String} (h : (outcomeIndex? tag).isSome) :
    (∃ index, tag = outcomeTag index) ↔ ¬ MisspeltTag tag := by
  constructor
  · rintro ⟨index, rfl⟩ ⟨number, s, hlt, hspells, hne, heq⟩
    have hread := outcomeIndex?_eq_some_iff.mpr ⟨hlt, s, hspells, heq⟩
    obtain rfl := eq_of_outcomeIndex?_outcomeTag hread
    exact hne ((String.append_right_inj _).mp heq).symm
  · intro hspelt
    obtain ⟨number, hnumber⟩ := Option.isSome_iff_exists.mp h
    obtain ⟨hlt, -⟩ := outcomeIndex?_eq_some_iff.mp hnumber
    exact ⟨number, ((exact_outcomeIndex?_iff tag).mpr hspelt number hlt).mp hnumber⟩

/-! ### Looking up tags -/

namespace Controller

/-- The tag is the one that its outcome has, and no other spelling of it. -/
def IsOutcomeTag (tag : String) : Prop :=
  (outcomeIndex? tag).map outcomeTag = some tag

instance (tag : String) : Decidable (IsOutcomeTag tag) :=
  inferInstanceAs (Decidable (_ = _))

/-- The controller without the transitions whose tag has another spelling. -/
def onlyOutcomeTags (c : Controller) : Controller :=
  { c with transitions := c.transitions.filter fun t => IsOutcomeTag t.tag }

variable {c : Controller}

theorem isOutcomeTag_outcomeTag {index : Nat} (h : (outcomeIndex? (outcomeTag index)).isSome) :
    IsOutcomeTag (outcomeTag index) := by
  obtain ⟨number, hnumber⟩ := Option.isSome_iff_exists.mp h
  obtain rfl := eq_of_outcomeIndex?_outcomeTag hnumber
  rw [IsOutcomeTag, hnumber, Option.map_some]

theorem successor?_onlyOutcomeTags (h : ∀ t ∈ c.transitions, (outcomeIndex? t.tag).isSome)
    (id index : Nat) :
    c.onlyOutcomeTags.successor? id (outcomeTag index) = c.successor? id (outcomeTag index) := by
  have hfilter : (c.onlyOutcomeTags.transitionsFrom id).filter (·.tag = outcomeTag index) =
      (c.transitionsFrom id).filter (·.tag = outcomeTag index) := by
    simp only [transitionsFrom, onlyOutcomeTags, List.filter_filter]
    refine List.filter_congr fun t ht => ?_
    by_cases htag : t.tag = outcomeTag index
    · have hexact : IsOutcomeTag t.tag := htag ▸ isOutcomeTag_outcomeTag (htag ▸ h t ht)
      simp [htag, htag ▸ hexact]
    · simp [htag]
  rw [successor?, successor?, ← List.head?_filter, ← List.head?_filter, hfilter]

end Controller

namespace Verification

open Controller

variable {c : Controller} {task : Task}

/-- Verification follows transitions by the tags of outcomes only. -/
theorem verify_congr_successor {ts : List Transition}
    (h : ∀ id index, { c with transitions := ts }.successor? id (outcomeTag index) =
      c.successor? id (outcomeTag index)) :
    verify { c with transitions := ts } task = verify c task := by
  have hfollow : follow { c with transitions := ts } = follow c := by
    funext node action index outcome
    simp only [follow, h]
    rfl
  have hfollowAll : followAll { c with transitions := ts } = followAll c := by
    funext node id action index outcomes e
    induction outcomes generalizing index e with
    | nil => rfl
    | cons outcome outcomes ih => simp only [followAll, hfollow, ih]
  have hexpand : expand { c with transitions := ts } task = expand c task := by
    funext id node e
    simp only [expand, hfollowAll]
    rfl
  have hexplore : explore { c with transitions := ts } task = explore c task := by
    funext rounds e
    induction rounds generalizing e with
    | zero => rfl
    | succ rounds ih => simp only [explore, hexpand, ih]
  have hspace : solutionSpace { c with transitions := ts } task = solutionSpace c task := by
    simp only [solutionSpace, hexplore]
    rfl
  rw [verify, verify, hspace]
  rfl

end Verification

/-! ### Choosing an output -/

namespace RunDirectory

open FileNames

/-- The name is in the list, and no name in it has a larger size. -/
def LargestAmong (names : List String) (name : String) : Prop :=
  name ∈ names ∧ ∃ size, attemptSize? name = some size ∧
    ∀ other ∈ names, ∀ n, attemptSize? other = some n → n ≤ size

variable {names names' : List String} {name : String}

theorem largestAmong_congr (h : names'.Perm names) :
    LargestAmong names' name ↔ LargestAmong names name := by
  simp only [LargestAmong, h.mem_iff]

theorem foldl_larger_some (best : Nat × String) (all : List (Nat × String)) :
    ∃ result, all.foldl larger (some best) = some result := by
  induction all generalizing best with
  | nil => exact ⟨best, rfl⟩
  | cons attempt all ih =>
    by_cases hlt : best.1 < attempt.1
    · simpa [larger, hlt] using ih attempt
    · simpa [larger, hlt] using ih best

theorem foldl_larger_eq_self {best : Nat × String} {all : List (Nat × String)}
    (h : ∀ attempt ∈ all, attempt.1 ≤ best.1) : all.foldl larger (some best) = some best := by
  induction all with
  | nil => rfl
  | cons attempt all ih =>
    obtain ⟨hattempt, hall⟩ := List.forall_mem_cons.mp h
    have hkeep : larger (some best) attempt = some best := if_neg (Nat.not_lt.mpr hattempt)
    rw [List.foldl_cons, hkeep, ih hall]

/-- Of the largest outputs the first one is taken. -/
theorem largestAttempt?_cons (h : LargestAmong (name :: names) name) :
    largestAttempt? (name :: names) = some name := by
  obtain ⟨-, size, hsize, hlargest⟩ := h
  have hattempts : attempts (name :: names) = (size, name) :: attempts names := by
    simp [attempts, hsize]
  have hall : ∀ attempt ∈ attempts names, attempt.1 ≤ size := by
    rintro ⟨n, other⟩ hmem
    obtain ⟨hother, hn⟩ := mem_attempts.mp hmem
    exact hlargest other (List.mem_cons_of_mem _ hother) n hn
  rw [largestAttempt?, hattempts, List.foldl_cons]
  exact congrArg (Option.map Prod.snd) (foldl_larger_eq_self hall)

theorem exists_largestAttempt? (h : LargestAmong names name) :
    ∃ chosen, largestAttempt? names = some chosen := by
  obtain ⟨hname, size, hsize, -⟩ := h
  obtain ⟨attempt, all, hattempts⟩ :=
    List.exists_cons_of_ne_nil (List.ne_nil_of_mem (mem_attempts.mpr ⟨hname, hsize⟩))
  obtain ⟨result, hresult⟩ := foldl_larger_some attempt all
  refine ⟨result.2, ?_⟩
  rw [largestAttempt?, hattempts, List.foldl_cons]
  exact congrArg (Option.map Prod.snd) hresult

theorem largestAttempt?_eq_some_iff
    (h : ∀ name other, LargestAmong names name → LargestAmong names other → name = other) :
    largestAttempt? names = some name ↔ LargestAmong names name := by
  constructor
  · exact exists_of_largestAttempt?
  · intro hname
    obtain ⟨chosen, hchosen⟩ := exists_largestAttempt? hname
    rw [hchosen, h chosen name (exists_of_largestAttempt? hchosen) hname]

/-- The order in which the names are listed does not matter just if one name only is largest. -/
theorem largestAttempt?_perm_iff :
    (∀ names', names'.Perm names → largestAttempt? names' = largestAttempt? names) ↔
      ∀ name other, LargestAmong names name → LargestAmong names other → name = other := by
  constructor
  · intro h name other hname hother
    have hfirst : ∀ {chosen}, LargestAmong names chosen →
        largestAttempt? names = some chosen := by
      intro chosen hchosen
      have hperm : (chosen :: names.erase chosen).Perm names :=
        (List.perm_cons_erase hchosen.1).symm
      rw [← h _ hperm]
      exact largestAttempt?_cons ((largestAmong_congr hperm).mpr hchosen)
    exact Option.some.inj ((hfirst hname).symm.trans (hfirst hother))
  · intro h names' hperm
    have h' : ∀ name other, LargestAmong names' name → LargestAmong names' other → name = other := by
      simpa only [largestAmong_congr hperm] using h
    ext name
    rw [largestAttempt?_eq_some_iff h, largestAttempt?_eq_some_iff h', largestAmong_congr hperm]

/-! ### What is read and what is looked up -/

/-- A tag or the name of an output is read as the number that it is given out for, unless it is
misspelt. An accepted controller has tags that verification can look up, unless one is misspelt, and
verification is the same without such transitions. Which output is the largest does not depend on the
order of the names, unless two names are of the largest size. -/
theorem exact_unless_misspelt (tag name : String) {c c' : Controller} (hfinish : c.finish = .ok c')
    (task : Task) (names : List String) :
    ((∀ index, index + 1 < wordLimit → (outcomeIndex? tag = some index ↔ tag = outcomeTag index)) ↔
      ¬ MisspeltTag tag) ∧
    ((∀ size, size < wordLimit → (attemptSize? name = some size ↔ name = attemptOutput size)) ↔
      ¬ MisspeltName name) ∧
    ((∀ t ∈ c'.transitions, ∃ index, t.tag = outcomeTag index) ↔
      ∀ t ∈ c'.transitions, ¬ MisspeltTag t.tag) ∧
    Verification.verify c'.onlyOutcomeTags task = Verification.verify c' task ∧
    ((∀ names', names'.Perm names → largestAttempt? names' = largestAttempt? names) ↔
      ∀ first second, LargestAmong names first → LargestAmong names second → first = second) := by
  obtain ⟨-, -, htags, rfl⟩ := Controller.finish_eq_ok.mp hfinish
  have hread : ∀ t ∈ Transition.ordered c.transitions, (outcomeIndex? t.tag).isSome :=
    fun t ht => htags t (Transition.mem_ordered.mp ht)
  refine ⟨exact_outcomeIndex?_iff tag, exact_attemptSize?_iff name, ?_, ?_, largestAttempt?_perm_iff⟩
  · exact forall₂_congr fun t ht => exists_outcomeTag_iff (hread t ht)
  · exact Verification.verify_congr_successor (Controller.successor?_onlyOutcomeTags hread)

/-- A controller with the tag `e01` instead of `e1`. -/
def misspelt : Controller :=
  { answer := 1
    numVariables := 1
    states := [(0, .ofValues [0]), (1, .ofValues [1])]
    transitions := [⟨0, "e01", 1⟩]
    policy := [(0, "push()")] }

/-- The controller with the tag `e01` is accepted, and verification does as if it had no
transition. -/
theorem exact_unless_misspelt_e01 :
    misspelt.finish = .ok misspelt ∧ (¬ ∃ index, "e01" = outcomeTag index) ∧
      Verification.verify { misspelt with transitions := [] } Verification.door =
        Verification.verify misspelt Verification.door := by
  have hfinish : misspelt.finish = .ok misspelt := by decide
  obtain ⟨hexact, -, haccepted, hverify, -⟩ :=
    exact_unless_misspelt "e01" "clingo_out_01.out" hfinish Verification.door []
  refine ⟨hfinish, fun hindex => ?_, hverify⟩
  have hall : ∀ t ∈ misspelt.transitions, ∃ index, t.tag = outcomeTag index :=
    List.forall_mem_singleton.mpr hindex
  have hspelt := haccepted.mp hall ⟨0, "e01", 1⟩ List.mem_cons_self
  exact absurd ((hexact.mpr hspelt 0 (by decide)).mp (by decide)) (by decide)

/-- Neither decoder takes just the tags and names that are given out, not every accepted tag is the
tag of an outcome, and which output is the largest can depend on the order of the names. -/
theorem not_forall_given_out :
    (¬ ∀ tag index, index + 1 < wordLimit →
      (outcomeIndex? tag = some index ↔ tag = outcomeTag index)) ∧
    (¬ ∀ name size, size < wordLimit →
      (attemptSize? name = some size ↔ name = attemptOutput size)) ∧
    (¬ ∀ c c' : Controller, c.finish = .ok c' →
      ∀ t ∈ c'.transitions, ∃ index, t.tag = outcomeTag index) ∧
    ¬ ∀ names names', names'.Perm names → largestAttempt? names' = largestAttempt? names := by
  refine ⟨fun h => ?_, fun h => ?_, fun h => ?_, fun h => ?_⟩
  · have htag := (h "e01" 0 (by decide)).mp (by decide)
    exact absurd htag (by decide)
  · have hname := (h "clingo_out_01.out" 1 (by decide)).mp (by decide)
    exact absurd hname (by decide)
  · obtain ⟨index, htag⟩ := h misspelt misspelt (by decide) ⟨0, "e01", 1⟩ List.mem_cons_self
    have hread : outcomeIndex? (outcomeTag index) = some 0 := by
      rw [← htag]
      decide
    obtain rfl := eq_of_outcomeIndex?_outcomeTag hread
    exact absurd htag (by decide)
  · have horder := h ["clingo_out_1.out", "clingo_out_01.out"]
      ["clingo_out_01.out", "clingo_out_1.out"] (List.Perm.swap _ _ _)
    exact absurd horder (by decide)

end RunDirectory

end StrongCyclic
