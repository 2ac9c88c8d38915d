import StrongCyclic.Proofs.Controller.Sections
import StrongCyclic.Proofs.Text.Search

/-!
The text form of a controller is read back. Each line is taken apart where it was put together:
numerals hold none of the marks between the parts, and the action of a transition, which may hold any
of them, stands between a mark that is searched from the front and two that are searched from the
end. So reading adds the entries of the controller one after the other, each at the end of those that
are there already.
-/

namespace StrongCyclic

open Text (Plain wordLimit)

/-! ### States and their pairs -/

theorem State.setAll_pairsFrom (before slots : List (Option Nat)) :
    State.setAll ⟨before ++ List.replicate slots.length none⟩ (pairsFrom before.length slots) =
      ⟨before ++ slots⟩ := by
  induction slots generalizing before with
  | nil => simp [pairsFrom, setAll]
  | cons slot slots ih =>
    have hnext := ih (before ++ [slot])
    rw [List.append_assoc, List.append_assoc, List.length_append] at hnext
    cases slot with
    | none => exact hnext
    | some value =>
      rw [pairsFrom, setAll, List.foldl_cons]
      simpa [set, setAll, List.replicate_succ] using hnext

/-- A state is made up of its pairs. -/
theorem State.ofPairs_pairs (s : State) : ofPairs s.size s.pairs = s :=
  setAll_pairsFrom [] s.slots

namespace Controller

variable {n : Nat} {c : Controller}

theorem readNumber_eq_ok {line number : Nat} {text : String} :
    readNumber line text = .ok number ↔ Text.natural? (Text.trim text) = some number := by
  unfold readNumber fail
  cases Text.natural? (Text.trim text) <;> simp

theorem readNumber_toString {number : Nat} (h : number < wordLimit) (line : Nat) :
    readNumber line (toString number) = .ok number :=
  readNumber_eq_ok.mpr (by rw [(Text.plain_toString number).1, Text.natural?_toString h])

theorem readHeader_eq {name header : String} (hheader : header = name ++ ":") {number : Nat}
    (h : number < wordLimit) {lines : List TextLine}
    (hlines : lines.map Prod.snd = [header ++ toString number]) :
    readHeader name lines = .ok number := by
  obtain ⟨⟨line, text⟩, rest, rfl, htext, -⟩ := List.map_eq_cons_iff.mp hlines
  obtain rfl : text = header ++ toString number := htext
  rw [hheader, String.append_assoc, readHeader, Text.afterPrefix?_append, Option.bind_some,
    Text.afterPrefix?_append]
  exact readNumber_toString h line

/-! ### States -/

theorem not_mem_toString {mark : Char} (h : mark.isDigit = false) (number : Nat) :
    mark ∉ (toString number).toList :=
  fun hmem => absurd (Text.isDigit_of_mem_toString hmem) (by simp [h])

theorem readStates_state {id : Nat} (h : id < wordLimit) (c : Controller) (current : Option Nat)
    (line : Nat) (rest : List TextLine) :
    readStates c current ((line, "State:" ++ toString id) :: rest) =
      readStates (c.addState id) (some id) rest := by
  rw [readStates, Text.afterPrefix?_append]
  dsimp only
  rw [readNumber_toString h]
  rfl

theorem readStates_assignment {id var value : Nat} (hvar : var < wordLimit)
    (hvalue : value < wordLimit) {c' : Controller} (h : c.assign id var value = some c')
    (line : Nat) (rest : List TextLine) :
    readStates c (some id) ((line, toString var ++ "=" ++ toString value) :: rest) =
      readStates c' (some id) rest := by
  have hprefix : Text.afterPrefix? "State:" (toString var ++ "=" ++ toString value) = none := by
    rw [String.append_assoc, Option.eq_none_iff_forall_ne_some]
    intro after hafter
    refine Text.toString_append_ne (fun c hc => ?_) (Text.eq_append_of_afterPrefix? hafter)
    rw [String.toList_append] at hc
    cases hc
    rfl
  have hcut : Text.cutFirst? "=" (toString var ++ "=" ++ toString value) =
      some (toString var, toString value) := by
    rw [String.append_assoc]
    exact Text.cutFirst?_append (p := '=') (by decide) (not_mem_toString rfl var)
  rw [readStates, hprefix]
  dsimp only
  have hread : c.readAssignment (some id) line (toString var ++ "=" ++ toString value) = .ok c' := by
    rw [readAssignment, hcut]
    dsimp only
    rw [readNumber_toString hvar, readNumber_toString hvalue]
    simp [bind, Except.bind, h]
  rw [hread]
  rfl

/-- The assignments of the state that was added last are put into it. -/
theorem readStates_pairs (hn : c.numVariables = n) {id : Nat} {done : List (Nat × State)}
    (hdone : ∀ entry ∈ done, entry.1 < id) {pairs : List (Nat × Nat)}
    (hpairs : ∀ pair ∈ pairs, pair.1 < n ∧ pair.1 < wordLimit ∧ pair.2 < wordLimit)
    {lines : List TextLine}
    (hlines : lines.map Prod.snd =
      pairs.map fun (var, value) => toString var ++ "=" ++ toString value)
    (s : State) (rest : List TextLine) :
    readStates { c with states := done ++ [(id, s)] } (some id) (lines ++ rest) =
      readStates { c with states := done ++ [(id, s.setAll pairs)] } (some id) rest := by
  induction pairs generalizing lines s with
  | nil =>
    rw [List.map_eq_nil_iff.mp hlines]
    rfl
  | cons pair pairs ih =>
    obtain ⟨⟨hvar, hvarWord, hvalueWord⟩, hrest⟩ := List.forall_mem_cons.mp hpairs
    obtain ⟨⟨line, text⟩, others, rfl, htext, hothers⟩ := List.map_eq_cons_iff.mp hlines
    obtain rfl : text = toString pair.1 ++ "=" ++ toString pair.2 := htext
    have hassign : Controller.assign { c with states := done ++ [(id, s)] } id pair.1 pair.2 =
        some { c with states := done ++ [(id, s.set pair.1 (some pair.2))] } := by
      simp [Controller.assign, hn, Nat.not_le_of_lt hvar, IdMap.alter_last _ hdone]
    rw [List.cons_append, readStates_assignment hvarWord hvalueWord hassign]
    exact ih hrest hothers _

/-- The states are added one after the other with their assignments. -/
theorem readStates_stateLines (hn : c.numVariables = n) {entries : List (Nat × State)}
    (hentries : ∀ entry ∈ entries, entry.1 < wordLimit ∧ entry.2.InWords n)
    {done : List (Nat × State)} (h : IdMap.Increasing (done ++ entries)) {lines : List TextLine}
    (hlines : lines.map Prod.snd = entries.flatMap fun (id, s) => stateLines id s)
    (current : Option Nat) :
    readStates { c with states := done } current lines =
      .ok { c with states := done ++ entries } := by
  induction entries generalizing done lines current with
  | nil =>
    rw [List.map_eq_nil_iff.mp hlines, readStates, List.append_nil]
  | cons entry entries ih =>
    obtain ⟨id, s⟩ := entry
    obtain ⟨⟨hid, hs⟩, hfit⟩ := List.forall_mem_cons.mp hentries
    rw [List.flatMap_cons] at hlines
    obtain ⟨own, others, rfl, hown, hothers⟩ := List.map_eq_append_iff.mp hlines
    obtain ⟨⟨line, text⟩, assignments, rfl, htext, hassignments⟩ := List.map_eq_cons_iff.mp hown
    obtain rfl : text = "State:" ++ toString id := htext
    have hdone : ∀ entry ∈ done, entry.1 < id := h.lt_of_append_cons
    have hadd : addState { c with states := done } id =
        { c with states := done ++ [(id, State.undefined n)] } := by
      simp [addState, IdMap.ensure, IdMap.alter_of_forall_lt _ hdone, hn]
    have hpairs : ∀ pair ∈ s.pairs, pair.1 < n ∧ pair.1 < wordLimit ∧ pair.2 < wordLimit := by
      rintro ⟨var, value⟩ hpair
      have hvalue := (State.mem_pairs s var value).mp hpair
      exact ⟨hs.size_eq ▸ State.lt_size_of_value? hvalue, hs.lt var value hvalue⟩
    rw [List.cons_append, readStates_state hid, hadd, readStates_pairs hn hdone hpairs hassignments]
    have hself : (State.undefined n).setAll s.pairs = s := by
      rw [← hs.size_eq]
      exact s.ofPairs_pairs
    rw [hself]
    have hincreasing : IdMap.Increasing ((done ++ [(id, s)]) ++ entries) := by simpa using h
    simpa using ih hfit hincreasing hothers (some id)

/-! ### Transitions -/

/-- A transition line is taken apart into its source, tag and target, whatever the action is. -/
theorem transitionParts?_transitionLine (c : Controller) {t : Transition} (h : ',' ∉ t.tag.toList) :
    transitionParts? (c.transitionLine t) =
      some (toString t.source, t.tag, toString t.target) := by
  have hsource : Text.cutFirst? "--" (c.transitionLine t) = some (toString t.source,
      c.policyText t.source ++ "," ++ t.tag ++ ("-->" ++ toString t.target)) := by
    have hline : c.transitionLine t = toString t.source ++ ("--" ++
        (c.policyText t.source ++ "," ++ t.tag ++ ("-->" ++ toString t.target))) := by
      simp only [transitionLine, String.append_assoc]
    rw [hline]
    exact Text.cutFirst?_append (p := '-') (by decide) (not_mem_toString rfl _)
  have htarget : Text.cutLast? "-->"
      (c.policyText t.source ++ "," ++ t.tag ++ ("-->" ++ toString t.target)) =
      some (c.policyText t.source ++ "," ++ t.tag, toString t.target) :=
    Text.cutLast?_append (p := '>') (by decide) (not_mem_toString rfl _)
  have htag : Text.cutLast? "," (c.policyText t.source ++ "," ++ t.tag) =
      some (c.policyText t.source, t.tag) := by
    rw [String.append_assoc]
    exact Text.cutLast?_append (p := ',') (by decide) h
  rw [transitionParts?, hsource]
  simp only [Option.bind_eq_bind, Option.bind_some, htarget, htag, Option.pure_def]

theorem readTransition_transitionLine {c' : Controller} {t : Transition} (h : ',' ∉ t.tag.toList)
    (hsource : t.source < wordLimit) (htarget : t.target < wordLimit) (line : Nat) :
    c'.readTransition (line, c.transitionLine t) = .ok (c'.addTransition t) := by
  rw [readTransition, transitionParts?_transitionLine c h]
  dsimp only
  rw [readNumber_toString hsource, readNumber_toString htarget]
  rfl

theorem addTransition_of_mem_ids (h : IdMap.Increasing c.states) {t : Transition}
    (hsource : t.source ∈ c.ids) (htarget : t.target ∈ c.ids) :
    c.addTransition t = { c with transitions := c.transitions ++ [t] } := by
  have hadd : ∀ {id : Nat}, id ∈ c.ids → c.addState id = c := fun hid => by
    rw [addState, IdMap.ensure_of_mem_keys _ h hid]
  rw [addTransition, hadd hsource, hadd htarget]

/-- The transitions are added to the states of the controller, before it has a policy. -/
theorem foldlM_readTransition (h : Built n c) {done ts : List Transition}
    (hends : ∀ t ∈ ts, t.source ∈ c.ids ∧ t.target ∈ c.ids) (htags : ∀ t ∈ ts, ',' ∉ t.tag.toList)
    {lines : List TextLine} (hlines : lines.map Prod.snd = ts.map c.transitionLine) :
    lines.foldlM readTransition { c with transitions := done, policy := [] } =
      .ok { c with transitions := done ++ ts, policy := [] } := by
  induction ts generalizing done lines with
  | nil =>
    rw [List.map_eq_nil_iff.mp hlines, List.append_nil]
    rfl
  | cons t ts ih =>
    obtain ⟨⟨line, text⟩, others, rfl, htext, hothers⟩ := List.map_eq_cons_iff.mp hlines
    obtain rfl : text = c.transitionLine t := htext
    obtain ⟨⟨hsource, htarget⟩, hends⟩ := List.forall_mem_cons.mp hends
    obtain ⟨htag, htags⟩ := List.forall_mem_cons.mp htags
    have hadd : addTransition { c with transitions := done, policy := [] } t =
        { c with transitions := done ++ [t], policy := [] } :=
      addTransition_of_mem_ids (c := { c with transitions := done, policy := [] })
        h.states_increasing hsource htarget
    rw [List.foldlM_cons, readTransition_transitionLine htag (h.id_lt hsource) (h.id_lt htarget),
      hadd, Fallible.ok_bind, ih hends htags hothers]
    simp

/-! ### Policy -/

theorem readPolicy_policyLine {id : Nat} (hid : id < wordLimit) {action : String}
    (h : Plain action) (c : Controller) (line : Nat) :
    c.readPolicy (line, policyLine id action) = .ok (c.setPolicy id action) := by
  have hcut : Text.cutFirst? "-->" (policyLine id action) = some (toString id, action) := by
    rw [policyLine, String.append_assoc]
    exact Text.cutFirst?_append (p := '-') (by decide) (not_mem_toString rfl id)
  rw [readPolicy, hcut]
  dsimp only
  rw [readNumber_toString hid, h.1]
  rfl

theorem foldlM_readPolicy {entries : List (Nat × String)}
    (hentries : ∀ entry ∈ entries, entry.1 < wordLimit ∧ Plain entry.2)
    (h : IdMap.Increasing (c.policy ++ entries)) {lines : List TextLine}
    (hlines : lines.map Prod.snd = entries.map fun (id, action) => policyLine id action) :
    lines.foldlM readPolicy c = .ok { c with policy := c.policy ++ entries } := by
  induction entries generalizing c lines with
  | nil =>
    rw [List.map_eq_nil_iff.mp hlines, List.append_nil]
    rfl
  | cons entry entries ih =>
    obtain ⟨id, action⟩ := entry
    obtain ⟨⟨line, text⟩, others, rfl, htext, hothers⟩ := List.map_eq_cons_iff.mp hlines
    obtain rfl : text = policyLine id action := htext
    obtain ⟨⟨hid, hplain⟩, hrest⟩ := List.forall_mem_cons.mp hentries
    have hset : c.setPolicy id action = { c with policy := c.policy ++ [(id, action)] } := by
      rw [setPolicy, IdMap.insert, IdMap.alter_of_forall_lt _ (h.lt_of_append_cons)]
    rw [List.foldlM_cons, readPolicy_policyLine hid hplain, hset,
      Fallible.ok_bind, ih hrest (by simpa using h) hothers]
    simp

/-! ### All sections -/

theorem untitled_map_snd {title : String} {texts : List String} (h : ∀ text ∈ texts, text ≠ title)
    {lines : List TextLine} (hlines : lines.map Prod.snd = title :: texts) :
    (untitled title lines).map Prod.snd = texts := by
  have hfilter : (title :: texts).filter (· ≠ title) = texts := by
    simpa using h
  rw [untitled, ← hfilter, ← hlines, List.filter_map]
  rfl

/-- A finished controller with plain actions is read back from its text form, with any text behind
it. -/
theorem Finished.parse_text_append (h : Finished n c) (hplain : c.PlainActions) (rest : String) :
    parse (c.text ++ rest) n = .ok c := by
  obtain ⟨found, more, hsections, hfound⟩ := h.sections_text hplain rest
  obtain ⟨answer, _, rfl, hanswer, hfound⟩ := List.map_eq_cons_iff.mp hfound
  obtain ⟨initial, _, rfl, hinitial, hfound⟩ := List.map_eq_cons_iff.mp hfound
  obtain ⟨goal, _, rfl, hgoal, hfound⟩ := List.map_eq_cons_iff.mp hfound
  obtain ⟨states, _, rfl, hstates, hfound⟩ := List.map_eq_cons_iff.mp hfound
  obtain ⟨transitions, _, rfl, htransitions, hfound⟩ := List.map_eq_cons_iff.mp hfound
  obtain ⟨policy, _, rfl, hpolicy, -⟩ := List.map_eq_cons_iff.mp hfound
  have hreadAnswer : readHeader "ANSWER" answer = .ok c.answer :=
    readHeader_eq (by decide) h.answer_lt hanswer
  have hreadInitial : readHeader "Initial State" initial = .ok 0 :=
    readHeader_eq (by decide) (by decide) hinitial
  have hreadGoal : readHeader "Goal State" goal = .ok c.goal :=
    readHeader_eq (by decide) h.goal_lt hgoal
  have hreadStates : readStates (empty c.answer n) none states =
      .ok { c with transitions := [], policy := [] } := by
    have hincreasing : IdMap.Increasing ([] ++ c.states) := h.states_increasing
    have hread := readStates_stateLines (c := empty c.answer n) rfl h.states hincreasing hstates none
    rw [← h.numVariables_eq] at hread ⊢
    exact hread
  have hreadTransitions : (untitled "Transitions:" transitions).foldlM readTransition
      { c with transitions := [], policy := [] } = .ok { c with policy := [] } := by
    refine foldlM_readTransition h.toBuilt h.ends
      (fun t ht => (plain_tag (h.tags t ht)).2) (untitled_map_snd ?_ htransitions)
    intro line hline
    obtain ⟨t, -, rfl⟩ := List.mem_map.mp hline
    simp only [transitionLine, String.append_assoc]
    exact Text.toString_append_ne (by simp)
  have hreadPolicy : (untitled "Policy:" policy).foldlM readPolicy { c with policy := [] } =
      .ok c := by
    refine foldlM_readPolicy (c := { c with policy := [] })
      (fun entry hentry => ⟨h.policy entry hentry, hplain entry hentry⟩) h.policy_increasing
      (untitled_map_snd ?_ hpolicy)
    intro line hline
    obtain ⟨⟨id, action⟩, -, rfl⟩ := List.mem_map.mp hline
    simp only [policyLine, String.append_assoc]
    exact Text.toString_append_ne (by simp)
  unfold parse
  simp only [hsections, List.cons_append, hreadAnswer, hreadInitial, hreadGoal, hreadStates,
    hreadTransitions, hreadPolicy, h.finish_eq, Fallible.ok_bind]
  simp [Controller.initial, pure, Except.pure]

end Controller

end StrongCyclic
