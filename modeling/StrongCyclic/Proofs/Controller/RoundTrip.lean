import StrongCyclic.Proofs.Controller.ReadBack
import StrongCyclic.Proofs.Sas.GroupKeys

/-!
The round trip through the text form. A controller that comes from an answer or from a text is
finished, so it is read back if its actions are plain; the actions that are read from a text always
are.
-/

namespace StrongCyclic.Controller

open Text (Plain wordLimit)
open Fallible (bind_eq_ok pure_eq_ok)

variable {n : Nat} {c c' : Controller}

/-! ### Controllers that are read from a text -/

theorem lt_of_readNumber {line number : Nat} {text : String}
    (h : readNumber line text = .ok number) : number < wordLimit :=
  Text.lt_of_natural? (readNumber_eq_ok.mp h)

theorem lt_of_readHeader {name : String} {lines : List TextLine} {number : Nat}
    (h : readHeader name lines = .ok number) : number < wordLimit := by
  unfold readHeader at h
  split at h
  · cases h
  · split at h
    · exact lt_of_readNumber h
    · cases h

theorem policy_assign {id var value : Nat} (h : c.assign id var value = some c') :
    c'.policy = c.policy := by
  unfold Controller.assign at h
  split at h
  · cases h
  · cases h
    rfl

theorem Built.readAssignment (hc : Built n c) {current : Option Nat} {line : Nat} {text : String}
    (hcurrent : ∀ id ∈ current, id < wordLimit)
    (h : c.readAssignment current line text = .ok c') : Built n c' ∧ c'.policy = c.policy := by
  unfold Controller.readAssignment at h
  split at h
  · cases h
  · split at h
    · cases h
    · next id =>
      obtain ⟨var, hvar, h⟩ := bind_eq_ok.mp h
      obtain ⟨value, hvalue, h⟩ := bind_eq_ok.mp h
      split at h
      · next assigned hassign =>
        cases h
        exact ⟨hc.assign (hcurrent id rfl) (lt_of_readNumber hvar) (lt_of_readNumber hvalue)
          hassign, policy_assign hassign⟩
      · cases h

theorem Built.readStates (hc : Built n c) {current : Option Nat} {lines : List TextLine}
    (hcurrent : ∀ id ∈ current, id < wordLimit) (h : readStates c current lines = .ok c') :
    Built n c' ∧ c'.policy = c.policy := by
  induction lines generalizing c current with
  | nil =>
    cases h
    exact ⟨hc, rfl⟩
  | cons line lines ih =>
    rw [Controller.readStates] at h
    split at h
    · obtain ⟨id, hid, h⟩ := bind_eq_ok.mp h
      have hid := lt_of_readNumber hid
      have hrest := ih (hc.addState hid) (fun k hk => Option.some.inj hk ▸ hid) h
      exact hrest
    · obtain ⟨assigned, hassigned, h⟩ := bind_eq_ok.mp h
      obtain ⟨hbuilt, hpolicy⟩ := hc.readAssignment hcurrent hassigned
      exact hpolicy ▸ ih hbuilt hcurrent h

theorem Built.readTransition (hc : Built n c) {line : TextLine}
    (h : c.readTransition line = .ok c') : Built n c' ∧ c'.policy = c.policy := by
  obtain ⟨number, text⟩ := line
  rw [Controller.readTransition] at h
  split at h
  · cases h
  · obtain ⟨source, hsource, h⟩ := bind_eq_ok.mp h
    obtain ⟨target, htarget, h⟩ := bind_eq_ok.mp h
    rw [← pure_eq_ok.mp h]
    exact ⟨hc.addTransition (lt_of_readNumber hsource) (lt_of_readNumber htarget), rfl⟩

theorem Built.readPolicy (hc : Built n c) {line : TextLine} (hline : '\n' ∉ line.2.toList)
    (hplain : c.PlainActions) (h : c.readPolicy line = .ok c') :
    Built n c' ∧ c'.PlainActions := by
  obtain ⟨number, text⟩ := line
  rw [Controller.readPolicy] at h
  split at h
  · cases h
  · next id action hcut =>
    obtain ⟨id, hid, h⟩ := bind_eq_ok.mp h
    rw [← pure_eq_ok.mp h]
    have haction : Plain (Text.trim action) :=
      Text.plain_trim fun hfeed => hline (Text.subset_of_cutFirst? hcut hfeed)
    exact ⟨hc.setPolicy (lt_of_readNumber hid) _,
      IdMap.forall_mem_alter hplain fun _ _ => haction⟩

theorem mem_of_mem_sectionsOf {lines : List TextLine} {found : List TextLine}
    (h : found ∈ sectionsOf lines) : found ⊆ lines := by
  induction lines generalizing found with
  | nil => simp [List.mem_singleton.mp h]
  | cons line lines ih =>
    obtain ⟨number, text⟩ := line
    rw [sectionsOf] at h
    split at h
    · rcases List.mem_cons.mp h with rfl | h
      · exact List.nil_subset _
      · exact List.subset_cons_of_subset _ (ih h)
    · split at h
      · exact List.subset_cons_of_subset _ (ih h)
      · split at h
        · simp [List.mem_singleton.mp h]
        · next first others heq =>
          rcases List.mem_cons.mp h with rfl | h
          · exact List.cons_subset_cons _ (ih (heq ▸ List.mem_cons_self))
          · exact List.subset_cons_of_subset _ (ih (heq ▸ List.mem_cons_of_mem _ h))

theorem not_mem_of_mem_sections {text : String} {found : List TextLine}
    (h : found ∈ sections text) : ∀ line ∈ found, '\n' ∉ line.2.toList := by
  intro line hline
  obtain ⟨i, hi, rfl⟩ := List.mem_mapIdx.mp (mem_of_mem_sectionsOf h hline)
  exact (Text.plain_trim (Text.not_mem_of_mem_lines (List.getElem_mem hi))).2

/-- A controller that is read from a text is finished, and its actions are plain. -/
theorem finished_of_parse {text : String} (h : parse text n = .ok c) :
    Finished n c ∧ c.PlainActions := by
  unfold parse at h
  split at h
  · next answer initial goal states transitions policy more hsections =>
    obtain ⟨number, hnumber, h⟩ := bind_eq_ok.mp h
    obtain ⟨initialId, -, h⟩ := bind_eq_ok.mp h
    obtain ⟨goalId, -, h⟩ := bind_eq_ok.mp h
    obtain ⟨c₁, hstates, h⟩ := bind_eq_ok.mp h
    obtain ⟨c₂, htransitions, h⟩ := bind_eq_ok.mp h
    obtain ⟨c₃, hpolicy, h⟩ := bind_eq_ok.mp h
    obtain ⟨c₄, hfinish, h⟩ := bind_eq_ok.mp h
    have hc : c₄ = c := by
      split at h
      · cases h
      · exact pure_eq_ok.mp h
    obtain ⟨hbuilt₁, hpolicy₁⟩ :=
      (built_empty (lt_of_readHeader hnumber)).readStates (by simp) hstates
    obtain ⟨hbuilt₂, hpolicy₂⟩ : Built n c₂ ∧ c₂.policy = [] :=
      Fallible.foldlM_preserves (P := fun c => Built n c ∧ c.policy = [])
        (fun line _ b b' hb hread => (hb.1.readTransition hread).imp_right (·.trans hb.2))
        ⟨hbuilt₁, hpolicy₁⟩ htransitions
    have hlines : ∀ line ∈ untitled "Policy:" policy, '\n' ∉ line.2.toList := fun line hline =>
      not_mem_of_mem_sections (by rw [hsections]; simp) line (List.mem_filter.mp hline).1
    obtain ⟨hbuilt₃, hplain⟩ : Built n c₃ ∧ c₃.PlainActions :=
      Fallible.foldlM_preserves (P := fun c => Built n c ∧ c.PlainActions)
        (fun line hline b b' hb hread => hb.1.readPolicy (hlines line hline) hb.2 hread)
        ⟨hbuilt₂, by simp [PlainActions, hpolicy₂]⟩ hpolicy
    subst hc
    refine ⟨hbuilt₃.finish hfinish, ?_⟩
    obtain ⟨-, -, -, rfl⟩ := finish_eq_ok.mp hfinish
    exact hplain
  · cases h

/-! ### The round trip -/

/-- The controller over `n` variables is read back from its text form, with and without a listing of
variables. -/
def ReadsBack (n : Nat) (c : Controller) : Prop :=
  parse c.text n = .ok c ∧ ∀ vars : List Variable, parse (c.textWithVariables vars) n = .ok c

theorem Finished.readsBack (h : Finished n c) (hplain : c.PlainActions) : ReadsBack n c := by
  refine ⟨?_, fun vars => h.parse_text_append hplain _⟩
  rw [← String.append_empty (s := c.text)]
  exact h.parse_text_append hplain ""

/-- Controllers with plain actions are read back. The actions that are read from a text are plain, and
so are the keys of the operators of a task; the numbers in the answers of a solver are words. -/
theorem readsBack_of_plainActions :
    (∀ (answer : Answer) (n : Nat) (c : Controller), answer.InWords →
      ofAnswer answer n = .ok c → c.PlainActions → ReadsBack n c) ∧
    (∀ (text : String) (n : Nat) (c : Controller), parse text n = .ok c →
      c.PlainActions ∧ ReadsBack n c) ∧
    (∀ (file : String) (t : Task) (key : String) (outcomes : List Action),
      Sas.parse file = .ok t → (key, outcomes) ∈ t.groups → Plain key) ∧
    ∀ (text : String) (out : SolverOutput), SolverOutput.parse text = .ok out →
      ∀ answer ∈ out.answers, answer.InWords := by
  refine ⟨fun answer n c hwords h hplain => ?_, fun text n c h => ?_, ?_, ?_⟩
  · exact (finished_of_ofAnswer hwords h).readsBack hplain
  · obtain ⟨hfinished, hplain⟩ := finished_of_parse h
    exact ⟨hplain, hfinished.readsBack hplain⟩
  · exact fun file t key outcomes h hgroup => Sas.plain_of_mem_groups h hgroup
  · exact fun text out h => SolverOutput.inWords_of_parse h

/-- An answer whose action holds all marks of the text form. -/
def markedAnswer : Answer :=
  ⟨3, [⟨"policy", [.int 0, .str "a--b,c-->d=e"]⟩, ⟨"transition", [.int 0, .str "e1", .int 2]⟩,
    ⟨"holds", [.int 2, .int 0, .int 1]⟩]⟩

/-- The controller of the answer. -/
def marked : Controller where
  answer := 3
  numVariables := 1
  states := [(0, .undefined 1), (2, .ofValues [1])]
  transitions := [⟨0, "e1", 2⟩]
  policy := [(0, "a--b,c-->d=e")]

theorem ofAnswer_markedAnswer : ofAnswer markedAnswer 1 = .ok marked := by
  decide +kernel

theorem parse_markedOutput :
    SolverOutput.parse
      "Answer: 3\npolicy(0,\"a--b,c-->d=e\") transition(0,\"e1\",2) holds(2,0,1)\n" =
    .ok ⟨.unknown, [markedAnswer], false⟩ := by
  decide +kernel

theorem readsBack_marked : ReadsBack 1 marked := by
  obtain ⟨hread, -, -, hwords⟩ := readsBack_of_plainActions
  exact hread markedAnswer 1 marked (hwords _ _ parse_markedOutput _ (.head _))
    ofAnswer_markedAnswer (by decide)

end StrongCyclic.Controller
