import Mathlib.Data.List.Chain
import Mathlib.Data.String.Basic
import StrongCyclic.Controller.OfAnswer
import StrongCyclic.Proofs.Answer.Words

/-!
Controllers that are built up entry by entry. States and policy are kept in the order of their
numbers, the ends of the transitions are states, and all numbers are 64-bit words as long as the
entries are. Finishing a controller brings its transitions into an order that finishing it once more
does not change.
-/

namespace StrongCyclic

open Text (wordLimit)

/-! ### The order of the transitions -/

namespace Transition

theorem before_irrefl (t : Transition) : t.before t = false := by
  simp [before]

theorem before_or_eq_or_before (t u : Transition) : t.before u ∨ t = u ∨ u.before t := by
  obtain ⟨source, tag, target⟩ := t
  obtain ⟨source', tag', target'⟩ := u
  by_cases hsource : source = source'
  · subst hsource
    by_cases htag : tag = tag'
    · subst htag
      simp only [before, mk.injEq]
      grind
    · rcases lt_or_gt_of_ne htag with h | h
      · simp [before, htag, h]
      · simp [before, htag, Ne.symm htag, h]
  · rcases lt_or_gt_of_ne hsource with h | h
    · simp [before, hsource, h]
    · simp [before, hsource, Ne.symm hsource, h]

theorem mem_insertOrdered {t u : Transition} {ts : List Transition} :
    u ∈ insertOrdered t ts ↔ u = t ∨ u ∈ ts := by
  induction ts with
  | nil => simp [insertOrdered]
  | cons v ts ih =>
    unfold insertOrdered
    split
    · next h => simp [h]
    · split
      · simp
      · simp only [List.mem_cons, ih]
        grind

theorem mem_ordered {t : Transition} {ts : List Transition} : t ∈ ordered ts ↔ t ∈ ts := by
  induction ts with
  | nil => rfl
  | cons u ts ih =>
    rw [ordered, List.foldr_cons, mem_insertOrdered, List.mem_cons]
    exact or_congr_right ih

theorem head?_insertOrdered {t v : Transition} {ts : List Transition}
    (h : v ∈ (insertOrdered t ts).head?) : v = t ∨ v ∈ ts.head? := by
  cases ts with
  | nil => exact .inl (Option.some.inj h).symm
  | cons u ts =>
    unfold insertOrdered at h
    split at h
    · exact .inr h
    · split at h
      · exact .inl (Option.some.inj h).symm
      · exact .inr h

theorem isChain_insertOrdered (t : Transition) {ts : List Transition}
    (h : ts.IsChain (·.before ·)) : (insertOrdered t ts).IsChain (·.before ·) := by
  induction ts with
  | nil => exact .singleton t
  | cons u ts ih =>
    obtain ⟨hhead, hts⟩ := List.isChain_cons.mp h
    unfold insertOrdered
    split
    · exact h
    · next hne =>
      split
      · next hbefore => exact List.isChain_cons_cons.mpr ⟨hbefore, h⟩
      · next hbefore =>
        refine List.isChain_cons.mpr ⟨fun v hv => ?_, ih hts⟩
        rcases head?_insertOrdered hv with rfl | hv
        · exact ((before_or_eq_or_before v u).resolve_left hbefore).resolve_left hne
        · exact hhead v hv

theorem isChain_ordered (ts : List Transition) : (ordered ts).IsChain (·.before ·) := by
  induction ts with
  | nil => exact List.IsChain.nil
  | cons t ts ih => exact isChain_insertOrdered t ih

theorem before_trans {t u v : Transition} (htu : t.before u = true) (huv : u.before v = true) :
    t.before v = true := by
  obtain ⟨source, tag, target⟩ := t
  obtain ⟨source', tag', target'⟩ := u
  obtain ⟨source'', tag'', target''⟩ := v
  simp only [before] at *
  grind [String.lt_trans]

theorem pairwise_of_isChain {ts : List Transition} (h : ts.IsChain (·.before ·)) :
    ts.Pairwise (·.before ·) := by
  have htrans : IsTrans Transition (·.before ·) := ⟨fun _ _ _ => before_trans⟩
  exact List.isChain_iff_pairwise.mp h

theorem ordered_eq_self {ts : List Transition} (h : ts.IsChain (·.before ·)) :
    ordered ts = ts := by
  induction ts with
  | nil => rfl
  | cons t ts ih =>
    rw [ordered, List.foldr_cons]
    change insertOrdered t (ordered ts) = t :: ts
    rw [ih (List.isChain_cons.mp h).2]
    cases ts with
    | nil => rfl
    | cons u ts =>
      have htu : t.before u := (List.isChain_cons_cons.mp h).1
      have hne : t ≠ u := by
        rintro rfl
        simp [before_irrefl] at htu
      simp [insertOrdered, hne, htu]

end Transition

/-! ### Controllers under construction -/

/-- The state has `n` slots, and its values and their variables are words. -/
structure State.InWords (n : Nat) (s : State) : Prop where
  size_eq : s.size = n
  lt : ∀ var value, s.value? var = some value → var < wordLimit ∧ value < wordLimit

theorem State.inWords_undefined (n : Nat) : (State.undefined n).InWords n where
  size_eq := by simp [undefined, size]
  lt := by simp

theorem State.InWords.set {n : Nat} {s : State} (h : s.InWords n) {var value : Nat}
    (hvar : var < wordLimit) (hvalue : value < wordLimit) :
    (s.set var (some value)).InWords n where
  size_eq := by rw [size_set, h.size_eq]
  lt v held hheld := by
    rw [value?_set] at hheld
    split at hheld
    · next hv =>
      cases hheld
      exact ⟨hv.1 ▸ hvar, hvalue⟩
    · exact h.lt v held hheld

namespace Controller

variable {n : Nat} {c c' : Controller}

/-- The numbers of the declared states. -/
def ids (c : Controller) : List Nat :=
  c.states.map Prod.fst

/-- What holds of a controller over `n` variables while it is built up. -/
structure Built (n : Nat) (c : Controller) : Prop where
  numVariables_eq : c.numVariables = n
  answer_lt : c.answer < wordLimit
  states_increasing : IdMap.Increasing c.states
  policy_increasing : IdMap.Increasing c.policy
  states : ∀ entry ∈ c.states, entry.1 < wordLimit ∧ entry.2.InWords n
  policy : ∀ entry ∈ c.policy, entry.1 < wordLimit
  ends : ∀ t ∈ c.transitions, t.source ∈ c.ids ∧ t.target ∈ c.ids

theorem built_empty {answer : Nat} (h : answer < wordLimit) : Built n (empty answer n) where
  numVariables_eq := rfl
  answer_lt := h
  states_increasing := by simp [empty, IdMap.Increasing]
  policy_increasing := by simp [empty, IdMap.Increasing]
  states := by simp [empty]
  policy := by simp [empty]
  ends := by simp [empty]

/-- Changing the assignment of a state keeps the controller built, if it keeps the assignment in
words. -/
theorem Built.alterState (h : Built n c) {id : Nat} (hid : id < wordLimit)
    {f : Option State → State} (hf : ∀ old, (∀ s ∈ old, s.InWords n) → (f old).InWords n) :
    Built n { c with states := IdMap.alter id f c.states } where
  numVariables_eq := h.numVariables_eq
  answer_lt := h.answer_lt
  states_increasing := h.states_increasing.alter id f
  policy_increasing := h.policy_increasing
  states := IdMap.forall_mem_alter h.states fun old hold =>
    ⟨hid, hf old fun s hs => (hold s hs).2⟩
  policy := h.policy
  ends t ht := by
    simp only [ids, IdMap.mem_keys_alter]
    exact ⟨.inr (h.ends t ht).1, .inr (h.ends t ht).2⟩

theorem Built.addState (h : Built n c) {id : Nat} (hid : id < wordLimit) :
    Built n (c.addState id) := by
  refine h.alterState hid fun old hold => ?_
  cases old with
  | none => exact h.numVariables_eq ▸ State.inWords_undefined _
  | some s => exact hold s rfl

theorem mem_ids_addState (c : Controller) (id k : Nat) :
    k ∈ (c.addState id).ids ↔ k = id ∨ k ∈ c.ids :=
  IdMap.mem_keys_alter ..

theorem Built.assign (h : Built n c) {id var value : Nat} (hid : id < wordLimit)
    (hvar : var < wordLimit) (hvalue : value < wordLimit)
    (hassign : c.assign id var value = some c') : Built n c' := by
  unfold Controller.assign at hassign
  split at hassign
  · cases hassign
  · cases hassign
    refine h.alterState hid fun old hold => State.InWords.set ?_ hvar hvalue
    cases old with
    | none => exact h.numVariables_eq ▸ State.inWords_undefined _
    | some s => exact hold s rfl

theorem Built.setPolicy (h : Built n c) {id : Nat} (hid : id < wordLimit) (action : String) :
    Built n (c.setPolicy id action) where
  numVariables_eq := h.numVariables_eq
  answer_lt := h.answer_lt
  states_increasing := h.states_increasing
  policy_increasing := h.policy_increasing.alter id _
  states := h.states
  policy := IdMap.forall_mem_alter h.policy fun _ _ => hid
  ends := h.ends

theorem Built.addTransition (h : Built n c) {t : Transition} (hsource : t.source < wordLimit)
    (htarget : t.target < wordLimit) : Built n (c.addTransition t) := by
  have hends := (h.addState hsource).addState htarget
  refine { hends with ends := fun u hu => ?_ }
  rcases List.mem_append.mp hu with hu | hu
  · exact hends.ends u hu
  · rw [List.mem_singleton.mp hu]
    simp only [Controller.addTransition, ids]
    exact ⟨(mem_ids_addState _ _ _).mpr (.inr ((mem_ids_addState _ _ _).mpr (.inl rfl))),
      (mem_ids_addState _ _ _).mpr (.inl rfl)⟩

theorem Built.id_lt (h : Built n c) {id : Nat} (hid : id ∈ c.ids) : id < wordLimit := by
  obtain ⟨entry, hentry, rfl⟩ := List.mem_map.mp hid
  exact (h.states entry hentry).1

theorem goal_mem (c : Controller) : c.goal ∈ 0 :: c.ids :=
  List.max?_mem List.max?_cons'

theorem Built.goal_lt (h : Built n c) : c.goal < wordLimit := by
  rcases List.mem_cons.mp c.goal_mem with hgoal | hgoal
  · rw [hgoal]
    decide
  · exact h.id_lt hgoal

/-! ### Finished controllers -/

/-- What holds of a controller that has been finished. -/
structure Finished (n : Nat) (c : Controller) : Prop extends Built n c where
  nonempty : c.states ≠ []
  hasPolicy : ∀ t ∈ c.transitions, (c.policy? t.source).isSome
  tags : ∀ t ∈ c.transitions, (outcomeIndex? t.tag).isSome
  ordered : c.transitions.IsChain (·.before ·)

theorem find?_isNone_eq_none {β : Type} {f : Transition → Option β} {ts : List Transition} :
    (ts.find? fun t => (f t).isNone) = none ↔ ∀ t ∈ ts, (f t).isSome := by
  simp [List.find?_eq_none, Option.isSome_iff_ne_none]

theorem finish_eq_ok : c.finish = .ok c' ↔
    c.states ≠ [] ∧ (∀ t ∈ c.transitions, (c.policy? t.source).isSome) ∧
      (∀ t ∈ c.transitions, (outcomeIndex? t.tag).isSome) ∧
      { c with transitions := Transition.ordered c.transitions } = c' := by
  rw [← find?_isNone_eq_none, ← find?_isNone_eq_none]
  unfold finish fail
  by_cases hstates : c.states = []
  · simp [hstates]
  · cases hpolicy : c.transitions.find? fun t => (c.policy? t.source).isNone with
    | some t => simp [hstates]
    | none =>
      cases htags : c.transitions.find? fun t => (outcomeIndex? t.tag).isNone with
      | some t => simp [hstates]
      | none => simp [hstates]

theorem Built.finish (h : Built n c) (hfinish : c.finish = .ok c') : Finished n c' := by
  obtain ⟨hstates, hpolicy, htags, rfl⟩ := finish_eq_ok.mp hfinish
  have hmem : ∀ {P : Transition → Prop}, (∀ t ∈ c.transitions, P t) →
      ∀ t ∈ Transition.ordered c.transitions, P t :=
    fun hall t ht => hall t (Transition.mem_ordered.mp ht)
  exact
    { h with
      ends := hmem h.ends
      nonempty := hstates
      hasPolicy := hmem hpolicy
      tags := hmem htags
      ordered := Transition.isChain_ordered _ }

/-- Finishing a finished controller changes nothing. -/
theorem Finished.finish_eq (h : Finished n c) : c.finish = .ok c := by
  refine finish_eq_ok.mpr ⟨h.nonempty, h.hasPolicy, h.tags, ?_⟩
  rw [Transition.ordered_eq_self h.ordered]

/-! ### The controller of an answer -/

theorem Built.addAtom (h : Built n c) {a : Atom} (ha : a.InWords)
    (hadd : c.addAtom a = .ok c') : Built n c' := by
  unfold Controller.addAtom at hadd
  split at hadd
  · unfold addHolds at hadd
    split at hadd
    · next id var value hid hvar hvalue =>
      split at hadd
      · next c'' hassign =>
        cases hadd
        exact h.assign (ha 0 id hid) (ha 1 var hvar) (ha 2 value hvalue) hassign
      · cases hadd
    · cases hadd
  · split at hadd
    · unfold addPolicy at hadd
      split at hadd
      · next id action hid haction =>
        cases hadd
        exact h.setPolicy (ha 0 id hid) action
      · cases hadd
    · split at hadd
      · unfold addTransitionAtom at hadd
        split at hadd
        · next source tag target hsource htag htarget =>
          cases hadd
          exact h.addTransition (ha 0 source hsource) (ha 2 target htarget)
        · cases hadd
      · cases hadd
        exact h

theorem finished_of_ofAnswer {answer : Answer} (ha : answer.InWords)
    (h : ofAnswer answer n = .ok c) : Finished n c := by
  obtain ⟨built, hbuilt, hfinish⟩ := Fallible.bind_eq_ok.mp h
  refine Built.finish ?_ hfinish
  exact Fallible.foldlM_preserves (P := Built n)
    (fun a hmem b b' hb hadd => hb.addAtom (ha.atoms a hmem) hadd) (built_empty ha.number_lt) hbuilt

end Controller

end StrongCyclic
