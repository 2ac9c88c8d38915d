import StrongCyclic.Proofs.Encoding.EffectMeaning
import StrongCyclic.Proofs.Encoding.ReadBack

/-!
The text of an instance determines the problem. From the text the lines are known, because no
string in them has a quote or a line feed (`Line.text_injective`); from the lines the lists of the
task are known (`read_instanceLines`); and from its pairs a state, an add list or a delete list is
known, once the number of variables is.
-/

namespace StrongCyclic

/-! ### States and delete lists -/

theorem State.eq_of_pairs {s s' : State} (hsize : s.size = s'.size) (h : s.pairs = s'.pairs) :
    s = s' := by
  refine eq_of_value? hsize fun var => Option.ext fun value => ?_
  rw [← mem_pairs, ← mem_pairs, h]

namespace Strips

/-- The values that are deleted of a variable stand among the deleted pairs. -/
theorem filter_flatten_mapIdx (deletes : List (List Nat)) (start index : Nat) :
    (((deletes.mapIdx fun var values => values.map fun value => (start + var, value)).flatten.filter
      (·.1 = start + index)).map Prod.snd) = deletes.getD index [] := by
  induction deletes generalizing start index with
  | nil => rfl
  | cons values deletes ih =>
    have hnext : (fun (var : Nat) (values : List Nat) =>
          values.map fun value => (start + (var + 1), value)) =
        fun var values => values.map fun value => (start + 1 + var, value) := by
      funext var values
      rw [Nat.add_assoc, Nat.add_comm 1]
    rw [List.mapIdx_cons, List.flatten_cons, List.filter_append, List.map_append, hnext]
    cases index with
    | zero =>
      -- what follows belongs to later variables
      have hlater : (deletes.mapIdx fun var values => values.map fun value =>
          (start + 1 + var, value)).flatten.filter (·.1 = start + 0) = [] := by
        refine List.filter_eq_nil_iff.mpr fun pair hpair => ?_
        obtain ⟨pairs, hpairs, hpair⟩ := List.mem_flatten.mp hpair
        obtain ⟨var, hvar, rfl⟩ := List.mem_mapIdx.mp hpairs
        obtain ⟨value, -, rfl⟩ := List.mem_map.mp hpair
        simp only [decide_eq_true_eq]
        omega
      rw [hlater]
      simp [List.filter_map, Function.comp_def]
    | succ index =>
      have hshift : start + (index + 1) = start + 1 + index := by omega
      have hhere : (values.map fun value => (start + 0, value)).filter
          (·.1 = start + 1 + index) = [] := by
        refine List.filter_eq_nil_iff.mpr fun pair hpair => ?_
        obtain ⟨value, -, rfl⟩ := List.mem_map.mp hpair
        simp only [decide_eq_true_eq]
        omega
      rw [hshift, hhere, ih]
      simp

theorem getD_delete (s : Strips) (var : Nat) :
    s.delete.getD var [] = (s.deleted.filter (·.1 = var)).map Prod.snd := by
  simpa [deleted] using (filter_flatten_mapIdx s.delete 0 var).symm

theorem eq_of_deleted {s s' : Strips} (hadd : s.add = s'.add)
    (hlength : s.delete.length = s'.delete.length) (h : s.deleted = s'.deleted) : s = s' := by
  have hdelete : s.delete = s'.delete := by
    refine List.ext_getElem hlength fun i hi hi' => ?_
    have hvalues := s.getD_delete i
    rw [h, ← getD_delete] at hvalues
    simpa [hi, hi'] using hvalues
  cases s
  cases s'
  simp_all

end Strips

/-- Lists whose entries are told by what is kept of them. -/
theorem map_eq_of_filterMap_eq {α β γ : Type} {f : α → Option β} {g : α → γ} {as bs : List α}
    (has : ∀ a ∈ as, (f a).isSome) (hbs : ∀ b ∈ bs, (f b).isSome)
    (hg : ∀ a ∈ as, ∀ b ∈ bs, f a = f b → g a = g b) (h : as.filterMap f = bs.filterMap f) :
    as.map g = bs.map g := by
  induction as generalizing bs with
  | nil =>
    cases bs with
    | nil => rfl
    | cons b bs =>
      obtain ⟨y, hy⟩ := Option.isSome_iff_exists.mp (hbs b List.mem_cons_self)
      simp [hy] at h
  | cons a as ih =>
    obtain ⟨x, hx⟩ := Option.isSome_iff_exists.mp (has a List.mem_cons_self)
    cases bs with
    | nil => simp [hx] at h
    | cons b bs =>
      obtain ⟨y, hy⟩ := Option.isSome_iff_exists.mp (hbs b List.mem_cons_self)
      rw [List.filterMap_cons_some hx, List.filterMap_cons_some hy] at h
      obtain ⟨rfl, hrest⟩ := List.cons.inj h
      have hmap := ih (fun a' ha' => has a' (.tail _ ha')) (fun b' hb' => hbs b' (.tail _ hb'))
        (fun a' ha' b' hb' => hg a' (.tail _ ha') b' (.tail _ hb')) hrest
      rw [List.map_cons, List.map_cons, hmap,
        hg a List.mem_cons_self b List.mem_cons_self (hx.trans hy.symm)]

theorem eq_of_map_eq {α β : Type} {f : α → β} {as bs : List α}
    (hf : ∀ a ∈ as, ∀ b ∈ bs, f a = f b → a = b) (h : as.map f = bs.map f) : as = bs := by
  have hid : as.map id = bs.map id :=
    map_eq_of_filterMap_eq (f := some ∘ f) (by simp) (by simp)
      (fun a ha b hb heq => hf a ha b hb (Option.some.inj heq)) (by simpa using h)
  simpa using hid

namespace Encoding

variable {t u : Task} {options : Options} {purpose : Purpose} {ℓ : Line} {name s : String}

/-! ### Strings in the lines -/

theorem Line.names_of_outcome? {tag : String} (h : ℓ.outcome? = some (name, tag)) :
    ℓ.names = [name, tag] := by
  cases ℓ <;> simp_all [outcome?, names]

theorem Line.part?_of_mem_names (h : s ∈ ℓ.names) : ℓ.part? = some .actions := by
  cases ℓ <;> first | rfl | cases h

theorem mem_names_of_mem_operatorLines {numVariables : Nat} {frame : Bool} {first : Action}
    {outcomes : List Action} (h : ℓ ∈ operatorLines numVariables frame name first outcomes)
    (hs : s ∈ ℓ.names) : s = first.header.stem ∨ s = name ∨ ∃ index, s = outcomeTag index := by
  simp only [operatorLines, List.mem_cons, List.mem_append, List.mem_map, List.mem_flatten,
    List.mem_mapIdx] at h
  rcases h with (rfl | rfl | ⟨pair, -, rfl⟩) | rfl | ⟨lines, ⟨index, _, rfl⟩, h⟩
  · simp only [Line.names, List.mem_cons, List.not_mem_nil, or_false] at hs
    exact hs.imp_right .inl
  · exact .inr (.inl (List.mem_singleton.mp hs))
  · exact .inr (.inl (List.mem_singleton.mp hs))
  · exact .inr (.inl (List.mem_singleton.mp hs))
  · have hnames : ℓ.names = [name, outcomeTag index] := by
      rcases mem_outcomeLines.mp h with rfl | ⟨s', -, h⟩
      · rfl
      · exact Line.names_of_outcome? (outcome?_of_mem_effectLines h)
    rw [hnames, List.mem_cons, List.mem_singleton] at hs
    exact .inr (hs.imp_right fun heq => ⟨index, heq⟩)

theorem mem_names_of_mem_operatorsFrom {numVariables : Nat} {frame : Bool}
    {announced : List String} {groups : List (String × List Action)}
    (h : ℓ ∈ operatorsFrom numVariables frame announced groups) (hs : s ∈ ℓ.names) :
    (∃ key first rest, (key, first :: rest) ∈ groups ∧ (s = key ∨ s = first.header.stem)) ∨
      ∃ index, s = outcomeTag index := by
  induction groups generalizing announced with
  | nil => cases h
  | cons group groups ih =>
    obtain ⟨key, _ | ⟨first, rest⟩⟩ := group
    · refine (ih h).imp_left ?_
      rintro ⟨key', first, rest, hmem, heq⟩
      exact ⟨key', first, rest, List.mem_cons_of_mem _ hmem, heq⟩
    · simp only [operatorsFrom, List.mem_append] at h
      rcases h with (h | h) | h
      · split at h
        · cases h
        · rw [List.mem_singleton.mp h] at hs
          exact .inl ⟨key, first, rest, List.mem_cons_self, .inr (List.mem_singleton.mp hs)⟩
      · rcases mem_names_of_mem_operatorLines h hs with heq | heq | htag
        · exact .inl ⟨key, first, rest, List.mem_cons_self, .inr heq⟩
        · exact .inl ⟨key, first, rest, List.mem_cons_self, .inl heq⟩
        · exact .inr htag
      · refine (ih h).imp_left ?_
        rintro ⟨key', first', rest', hmem, heq⟩
        exact ⟨key', first', rest', List.mem_cons_of_mem _ hmem, heq⟩

/-- The strings in an instance are keys and types of operators and tags of outcomes. -/
theorem mem_names_of_mem_instanceLines (h : ℓ ∈ instanceLines t options purpose)
    (hs : s ∈ ℓ.names) :
    (∃ key first rest, (key, first :: rest) ∈ t.groups ∧ (s = key ∨ s = first.header.stem)) ∨
      ∃ index, s = outcomeTag index := by
  rw [mem_instanceLines_part (Line.part?_of_mem_names hs)] at h
  simp only [partLines, actionLines, List.mem_append, List.mem_cons, List.not_mem_nil,
    or_false] at h
  rcases h with (h | h) | rfl | rfl
  · exact mem_names_of_mem_operatorsFrom h hs
  · split at h
    · obtain ⟨index, -, rfl⟩ := List.mem_map.mp h
      simp only [Line.names, List.mem_cons, List.not_mem_nil, or_false] at hs
      exact .inr (hs.elim (fun heq => ⟨_, heq⟩) fun heq => ⟨_, heq⟩)
    · cases h
  · cases hs
  · cases hs

/-- A character that is in no key and in no tag is in no string of an instance. -/
theorem not_mem_of_mem_names (ht : t.WellFormed) {c : Char}
    (hkeys : ∀ group ∈ t.groups, c ∉ group.1.toList) (hletter : c ≠ 'e')
    (hdigit : c.isDigit = false) (h : ℓ ∈ instanceLines t options purpose) (hs : s ∈ ℓ.names) :
    c ∉ s.toList := by
  rcases mem_names_of_mem_instanceLines h hs with ⟨key, first, rest, hmem, rfl | rfl⟩ | ⟨index, rfl⟩
  · exact hkeys _ hmem
  · intro hc
    obtain ⟨hkey, -⟩ := ht.grounded _ _ hmem first List.mem_cons_self
    refine hkeys _ hmem ?_
    dsimp only
    rw [← hkey, Action.groupKey, actionKey]
    simp [hc]
  · rw [outcomeTag, String.toList_append, List.mem_append]
    refine not_or.mpr ⟨by simpa using hletter, fun hc => ?_⟩
    exact absurd (Text.isDigit_of_mem_toString hc) (by simp [hdigit])

/-- Each line of an instance is one line of its text: the keys have no line feed because the reader
takes them from words of one line. -/
theorem not_mem_feed_of_parse {file : String} (ht : Sas.parse file = .ok t) :
    ∀ line ∈ (instanceLines t options purpose).map Line.text, '\n' ∉ line.toList := by
  intro line hline
  obtain ⟨ℓ, hℓ, rfl⟩ := List.mem_map.mp hline
  refine Line.not_mem_feed_text fun s hs => ?_
  exact not_mem_of_mem_names (Sas.wellFormed_of_parse ht)
    (fun _ hgroup => (Sas.plain_of_mem_groups ht hgroup).2) (by decide) (by decide) hℓ hs

/-- No key of an operator has a quote. -/
def QuoteFree (t : Task) : Prop :=
  ∀ group ∈ t.groups, '"' ∉ group.1.toList

/-- Instances with the same text have the same lines. -/
theorem instanceLines_eq_of_text_eq {file file' : String} (ht : Sas.parse file = .ok t)
    (hu : Sas.parse file' = .ok u) (htkeys : QuoteFree t) (hukeys : QuoteFree u)
    (h : instanceText t options purpose = instanceText u options purpose) :
    instanceLines t options purpose = instanceLines u options purpose := by
  have hquote : ∀ {file : String} {t : Task}, Sas.parse file = .ok t → QuoteFree t →
      ∀ ℓ ∈ instanceLines t options purpose, ∀ s ∈ ℓ.names, '"' ∉ s.toList :=
    fun ht hkeys ℓ hℓ s hs => not_mem_of_mem_names (Sas.wellFormed_of_parse ht) hkeys
      (by decide) (by decide) hℓ hs
  refine eq_of_map_eq (fun ℓ hℓ ℓ' hℓ' => ?_) (Text.unlines_inj (not_mem_feed_of_parse ht)
    (not_mem_feed_of_parse hu) h)
  exact Line.text_injective (hquote ht htkeys ℓ hℓ) (hquote hu hukeys ℓ' hℓ')

/-! ### Domains, mutex groups and the initial state -/

theorem domainSizes_eq_of_lastValues_eq (h : lastValues t.vars = lastValues u.vars) :
    t.domainSizes = u.domainSizes := by
  have hmap : ∀ t : Task,
      lastValues t.vars = t.domainSizes.map fun size : Nat => (size : Int) - 1 :=
    fun t => by simp [lastValues, Task.domainSizes]
  rw [hmap, hmap] at h
  exact eq_of_map_eq (fun size _ size' _ heq => by omega) h

theorem variableSets_eq (t : Task) : variableSets t =
    t.domainSizes.mapIdx fun var size => (List.range size).map fun value => (var, value) := by
  refine List.ext_getElem (by simp [variableSets]) fun i hi hi' => ?_
  simp [variableSets, Task.domainSizes]

theorem mutexSets_eq_map (t : Task) :
    mutexSets t = (t.mutexes.filter (1 < ·.definedCount)).map State.pairs := by
  rw [mutexSets, List.filter_map]
  rfl

theorem mem_failing {var value : Nat} : (var, value) ∈ failing t ↔
    ∃ held, t.initial.value? var = some held ∧ value < t.domainSizes.getD var 0 ∧ value ≠ held := by
  simp [failing, State.mem_pairs]

/-- In a full initial state the pairs that hold are those that do not fail. -/
theorem value?_initial_iff_not_failing (ht : t.initial.Full t.domainSizes) {var value : Nat} :
    t.initial.value? var = some value ↔
      value < t.domainSizes.getD var 0 ∧ (var, value) ∉ failing t := by
  rw [mem_failing]
  constructor
  · rintro hvalue
    refine ⟨ht.value_lt var value hvalue, ?_⟩
    rintro ⟨held, hheld, -, hne⟩
    exact hne (Option.some.inj (hvalue.symm.trans hheld))
  · rintro ⟨hlt, hfailing⟩
    have hvar : var < t.domainSizes.length := by
      by_contra hge
      rw [List.getD_eq_getElem?_getD, List.getElem?_eq_none (Nat.le_of_not_lt hge)] at hlt
      exact absurd hlt (Nat.not_lt_zero value)
    obtain ⟨held, hheld⟩ := ht.defined var hvar
    by_contra hne
    exact hfailing ⟨held, hheld, hlt, fun heq => hne (heq ▸ hheld)⟩

/-- The initial state is known from what is written of it, whichever of its values are. -/
theorem initial_eq_of_written_eq (ht : t.initial.Full t.domainSizes)
    (hu : u.initial.Full u.domainSizes) (hsizes : t.domainSizes = u.domainSizes)
    {values : InitialValues} (hholds : writtenHolding t values = writtenHolding u values)
    (hfails : writtenFailing t values = writtenFailing u values) : t.initial = u.initial := by
  have hsize : t.initial.size = u.initial.size := by rw [ht.size_eq, hu.size_eq, hsizes]
  cases values with
  | positive | both => exact State.eq_of_pairs hsize hholds
  | negative =>
    have hfailing : failing t = failing u := hfails
    refine State.eq_of_value? hsize fun var => Option.ext fun value => ?_
    rw [value?_initial_iff_not_failing ht, value?_initial_iff_not_failing hu, hsizes, hfailing]

/-! ### Operators -/

/-- What an instance says about an operator, without the numbers of its outcomes and their costs. -/
structure OperatorProfile where
  key : String
  /-- The type of the first outcome. -/
  type : Option String
  /-- The precondition of the first outcome. -/
  precondition : Option State
  /-- The effect and the add and delete list of each outcome. -/
  outcomes : List (List State × List Strips)

/-- The profile of an operator. -/
def OperatorProfile.of (group : String × List Action) : OperatorProfile where
  key := group.1
  type := group.2.head?.map (·.header.stem)
  precondition := group.2.head?.map (·.precondition)
  outcomes := group.2.map fun outcome => (outcome.effects, outcome.strips)

/-- The added and the deleted pairs of an outcome tell its effect. -/
theorem effect_eq_of_outcomeReading_eq {sizes : List Nat} {a b : Action} (ha : a.Grounded sizes)
    (hb : b.Grounded sizes) (h : outcomeReading a = outcomeReading b) :
    (a.effects, a.strips) = (b.effects, b.strips) := by
  obtain ⟨effect, hin, heffects, hstrips⟩ := ha.effect
  obtain ⟨effect', hin', heffects', hstrips'⟩ := hb.effect
  simp only [outcomeReading, hstrips, hstrips', List.head?_cons, Prod.mk.injEq] at h
  have hadd : effect = effect' := State.eq_of_pairs (hin.size_eq.trans hin'.size_eq.symm) h.1
  have hlength := (Strips.inDomains_derive ha.precondition hin).length_eq.trans
    (Strips.inDomains_derive hb.precondition hin').length_eq.symm
  have hderive := Strips.eq_of_deleted hadd hlength h.2
  rw [heffects, heffects', hstrips, hstrips', hderive, hadd]

/-- What is read of an operator tells its profile. -/
theorem profile_eq_of_operatorReading_eq {sizes : List Nat} {group group' : String × List Action}
    (hne : group.2 ≠ []) (hground : ∀ outcome ∈ group.2, outcome.Grounded sizes)
    (hground' : ∀ outcome ∈ group'.2, outcome.Grounded sizes)
    (h : operatorReading? group = operatorReading? group') :
    OperatorProfile.of group = OperatorProfile.of group' := by
  obtain ⟨key, _ | ⟨first, rest⟩⟩ := group
  · exact absurd rfl hne
  obtain ⟨key', _ | ⟨first', rest'⟩⟩ := group'
  · cases h
  obtain ⟨rfl, htype, hpairs, houtcomes⟩ := OperatorReading.mk.inj (Option.some.inj h)
  have hprecondition : first.precondition = first'.precondition := by
    have hsize := (hground first List.mem_cons_self).precondition.size_eq
    have hsize' := (hground' first' List.mem_cons_self).precondition.size_eq
    exact State.eq_of_pairs (hsize.trans hsize'.symm) hpairs
  have heffects : (first :: rest).map (fun outcome => (outcome.effects, outcome.strips)) =
      (first' :: rest').map fun outcome => (outcome.effects, outcome.strips) := by
    refine map_eq_of_filterMap_eq (f := fun outcome => some (outcomeReading outcome)) (by simp)
      (by simp) (fun a ha b hb heq => ?_) (by simpa using houtcomes)
    exact effect_eq_of_outcomeReading_eq (hground a ha) (hground' b hb) (Option.some.inj heq)
  simp [OperatorProfile.of, htype, hprecondition, heffects]

theorem profiles_eq_of_operatorReadings_eq (ht : t.WellFormed) (hu : u.WellFormed)
    (hsizes : t.domainSizes = u.domainSizes)
    (h : t.groups.filterMap operatorReading? = u.groups.filterMap operatorReading?) :
    t.groups.map OperatorProfile.of = u.groups.map OperatorProfile.of := by
  have hwritten : ∀ {t : Task}, t.WellFormed → ∀ group ∈ t.groups,
      (operatorReading? group).isSome := by
    rintro t ht ⟨key, _ | ⟨first, rest⟩⟩ hgroup
    · exact absurd rfl (ht.nonempty _ _ hgroup)
    · rfl
  refine map_eq_of_filterMap_eq (hwritten ht) (hwritten hu) ?_ h
  rintro ⟨key, outcomes⟩ hgroup ⟨key', outcomes'⟩ hgroup' heq
  refine profile_eq_of_operatorReading_eq (ht.nonempty _ _ hgroup)
    (fun outcome hmem => (ht.grounded _ _ hgroup outcome hmem).2) (fun outcome hmem => ?_) heq
  exact hsizes ▸ (hu.grounded _ _ hgroup' outcome hmem).2

/-! ### Tasks -/

/-- The tasks differ at most in what an instance leaves out: the names of variables and values,
mutex groups of fewer than two variables, the names and costs of outcomes, and the preconditions of
all but the first outcome of an operator. -/
structure SameProblem (t u : Task) : Prop where
  domainSizes_eq : t.domainSizes = u.domainSizes
  initial_eq : t.initial = u.initial
  goal_eq : t.goal = u.goal
  mutexes_eq : t.mutexes.filter (1 < ·.definedCount) = u.mutexes.filter (1 < ·.definedCount)
  operators_eq : t.groups.map OperatorProfile.of = u.groups.map OperatorProfile.of

/-- Instances with the same lines are of the same problem. -/
theorem sameProblem_of_instanceLines_eq (ht : t.InDomains) (hu : u.InDomains)
    (h : instanceLines t options purpose = instanceLines u options purpose) : SameProblem t u := by
  have hread := congrArg (Reading.read · .empty) h
  simp only [read_instanceLines, Reading.mk.injEq] at hread
  obtain ⟨hlast, hsets, hholds, hfails, hgoal, hoperators, -⟩ := hread
  have hsizes := domainSizes_eq_of_lastValues_eq hlast
  refine ⟨hsizes, initial_eq_of_written_eq ht.initial hu.initial hsizes hholds hfails, ?_, ?_,
    profiles_eq_of_operatorReadings_eq ht.toWellFormed hu.toWellFormed hsizes hoperators⟩
  · exact State.eq_of_pairs (by rw [ht.goal.size_eq, hu.goal.size_eq, hsizes]) hgoal
  · rw [variableSets_eq, variableSets_eq, hsizes, mutexSets_eq_map, mutexSets_eq_map] at hsets
    refine eq_of_map_eq (fun mutex hmutex mutex' hmutex' => State.eq_of_pairs ?_)
      (List.append_cancel_right hsets)
    rw [(ht.mutexes mutex (List.mem_of_mem_filter hmutex)).size_eq,
      (hu.mutexes mutex' (List.mem_of_mem_filter hmutex')).size_eq, hsizes]

/-- The text of an instance determines the problem, if no key of an operator has a quote. -/
theorem instanceText_determines {file file' : String} (ht : Sas.parse file = .ok t)
    (hu : Sas.parse file' = .ok u) (htkeys : QuoteFree t) (hukeys : QuoteFree u)
    (h : instanceText t options purpose = instanceText u options purpose) : SameProblem t u :=
  sameProblem_of_instanceLines_eq (Sas.inDomains_of_parse ht) (Sas.inDomains_of_parse hu)
    (instanceLines_eq_of_text_eq ht hu htkeys hukeys h)

/-- The door that sticks, with other names of its values and outcomes, another cost, and a mutex
group of one variable. -/
def stickingHatchFile : String :=
  Text.unlines
    ["begin_variable", "hatch", "-1", "2", "shut", "ajar", "end_variable",
      "begin_mutex_group", "1", "0 1", "end_mutex_group",
      "begin_state", "0", "end_state",
      "begin_goal", "1", "0 1", "end_goal",
      "begin_operator", "push_DETDUP_2", "1", "0 0", "0", "7", "end_operator",
      "begin_operator", "push_DETDUP_4", "0", "1", "0 0 0 1", "7", "end_operator"]

/-- The task of the hatch. -/
def hatch : Task :=
  .ofActions [⟨"hatch", ["shut", "ajar"]⟩] (.ofValues [0]) (.ofPairs 1 [(0, 1)])
    [.ofPairs 1 [(0, 1)]]
    [{ Verification.push "push_DETDUP_2" 2 [] with cost := 7 },
      { Verification.push "push_DETDUP_4" 4 [⟨0, some 0, 1⟩] with cost := 7 }]

theorem parse_stickingHatchFile : Sas.parse stickingHatchFile = .ok hatch := by
  decide +kernel

/-- The options under which only the values that do not hold initially are written. -/
def negativeOptions : Options :=
  { initialValues := .negative }

theorem instanceLines_hatch : instanceLines Verification.door negativeOptions .controller =
    instanceLines hatch negativeOptions .controller := by
  decide +kernel

theorem instanceText_determines_hatch : SameProblem Verification.door hatch := by
  have hdoor : QuoteFree Verification.door := by
    unfold QuoteFree
    decide +kernel
  have hhatch : QuoteFree hatch := by
    unfold QuoteFree
    decide +kernel
  have htext : instanceText Verification.door negativeOptions .controller =
      instanceText hatch negativeOptions .controller := by
    rw [instanceText, instanceText, instanceLines_hatch]
  exact instanceText_determines parse_stickingDoorFile parse_stickingHatchFile hdoor hhatch htext

end Encoding

end StrongCyclic
