import StrongCyclic.Guidance.Undo
import StrongCyclic.Proofs.Collection.Grouped

/-!
What the constraints of undo pairs forbid. A pair that is not lifted has a line of its own. The lifted
pairs share the lines on types: a type has one line, with the partner that its first pair in the list
gives it. So a lifted pair is covered just if it agrees with the first pair of its type, and no pair is
left without a line just if no type has two partners.
-/

namespace StrongCyclic.UndoPair

/-- What one constraint forbids: to follow an action with another one, or the actions of a type with
those of another type. -/
inductive Ban where
  | grounded (pair : UndoPair)
  | typed (types : String × String)

namespace Ban

/-- The line of the constraint. -/
def line : Ban → String
  | .grounded pair => groundedConstraint pair
  | .typed types => typeConstraint types

/-- The ban forbids to follow the first action of the pair with the second. -/
def Covers : Ban → UndoPair → Prop
  | .grounded pair, p => p = pair
  | .typed types, p => p.types = types

end Ban

section Bans

variable (byType : Bool) (pairs : List UndoPair)

/-- The pairs that are forbidden through their types. -/
def lifted : List UndoPair :=
  pairs.filter (isLifted byType)

/-- One ban for each pair that is not lifted, then one for each of the given pairs of types. -/
def bans (partners : List (String × String)) : List Ban :=
  (pairs.filter (!isLifted byType ·)).map .grounded ++ partners.map .typed

/-- The lifted pairs of a type all have the same partner. -/
def OnePartner : Prop :=
  ∀ p ∈ lifted byType pairs, ∀ q ∈ lifted byType pairs, p.types.1 = q.types.1 → p.types = q.types

end Bans

variable {byType : Bool} {pairs : List UndoPair} {partners : List (String × String)} {p : UndoPair}

theorem mem_lifted : p ∈ lifted byType pairs ↔ p ∈ pairs ∧ p.isLifted byType :=
  List.mem_filter

theorem keys_firstPartners (types : List (String × String)) :
    (firstPartners types).map Prod.fst = (types.map Prod.fst).eraseDups :=
  Keyed.keys_foldl_alter Prod.fst (fun entry => (·.getD entry.2)) types

/-- A type has the partner of the first entry with the type. -/
theorem mem_firstPartners {types : List (String × String)} {entry : String × String} :
    entry ∈ firstPartners types ↔ types.find? (·.1 = entry.1) = some entry := by
  have hnodup : ((firstPartners types).map Prod.fst).Nodup := by
    rw [keys_firstPartners]
    exact nodup_eraseDups _
  have hlookup : (firstPartners types).lookup entry.1 =
      (types.find? (·.1 = entry.1)).map Prod.snd :=
    Keyed.lookup_foldl_getD Prod.fst Prod.snd types entry.1
  obtain ⟨type, partner⟩ := entry
  rw [Keyed.mem_iff_lookup hnodup, hlookup, Option.map_eq_some_iff]
  constructor
  · rintro ⟨⟨first, second⟩, hfirst, rfl⟩
    obtain rfl : first = type := by simpa using List.find?_some hfirst
    exact hfirst
  · intro hentry
    exact ⟨_, hentry, rfl⟩

theorem mem_firstPartners_lifted {entry : String × String} :
    entry ∈ firstPartners ((lifted byType pairs).map types) ↔
      ∃ p, (lifted byType pairs).find? (·.types.1 = entry.1) = some p ∧ p.types = entry := by
  rw [mem_firstPartners, List.find?_map, Option.map_eq_some_iff]
  simp only [Function.comp_def]

theorem constraints_eq_bans :
    constraints byType pairs = Text.unlines
      ((bans byType pairs (firstPartners ((lifted byType pairs).map types))).map Ban.line) := by
  simp [constraints, bans, lifted, Function.comp_def, Ban.line]

theorem covered_iff (hp : p ∈ pairs) :
    (∃ ban ∈ bans byType pairs partners, ban.Covers p) ↔
      (p.isLifted byType → p.types ∈ partners) := by
  simp only [bans, List.mem_append, List.mem_map, List.mem_filter]
  constructor
  · rintro ⟨ban, ⟨pair, ⟨-, hpair⟩, rfl⟩ | ⟨entry, hentry, rfl⟩, hcovers⟩ hlifted
    · obtain rfl : p = pair := hcovers
      simp [hlifted] at hpair
    · obtain rfl : p.types = entry := hcovers
      exact hentry
  · intro h
    by_cases hlifted : p.isLifted byType
    · exact ⟨.typed p.types, .inr ⟨p.types, h hlifted, rfl⟩, rfl⟩
    · exact ⟨.grounded p, .inl ⟨p, ⟨hp, by simpa using hlifted⟩, rfl⟩, rfl⟩

theorem find?_lifted {type : String} {first : UndoPair}
    (h : (lifted byType pairs).find? (·.types.1 = type) = some first) :
    first ∈ lifted byType pairs ∧ first.types.1 = type :=
  ⟨List.mem_of_find?_eq_some h, by simpa using List.find?_some h⟩

theorem exists_find?_lifted (hp : p ∈ lifted byType pairs) :
    ∃ first, (lifted byType pairs).find? (·.types.1 = p.types.1) = some first := by
  rw [← Option.isSome_iff_exists, List.find?_isSome]
  exact ⟨p, hp, by simp⟩

/-- The types of a lifted pair have a line just if the first pair of its type has the same partner. -/
theorem types_mem_iff (hp : p ∈ lifted byType pairs) :
    p.types ∈ firstPartners ((lifted byType pairs).map types) ↔
      ∀ first, (lifted byType pairs).find? (·.types.1 = p.types.1) = some first →
        first.types = p.types := by
  rw [mem_firstPartners_lifted]
  constructor
  · rintro ⟨first, hfirst, htypes⟩ _ hother
    obtain rfl := Option.some.inj (hfirst.symm.trans hother)
    exact htypes
  · intro h
    obtain ⟨first, hfirst⟩ := exists_find?_lifted hp
    exact ⟨first, hfirst, h first hfirst⟩

theorem onePartner_iff :
    OnePartner byType pairs ↔ ∀ p ∈ lifted byType pairs, ∀ first,
      (lifted byType pairs).find? (·.types.1 = p.types.1) = some first → first.types = p.types := by
  constructor
  · intro h p hp first hfirst
    obtain ⟨hmem, htype⟩ := find?_lifted hfirst
    exact h first hmem p hp htype
  · intro h p hp q hq htype
    -- the two pairs have the same first pair
    obtain ⟨first, hfirst⟩ := exists_find?_lifted hp
    exact (h p hp first hfirst).symm.trans (h q hq first (htype ▸ hfirst))

/-- The partners are the pairs of types that occur, each of them once. -/
def PerTypePair (byType : Bool) (pairs : List UndoPair) (partners : List (String × String)) :
    Prop :=
  partners.Nodup ∧ ∀ entry, entry ∈ partners ↔ entry ∈ (lifted byType pairs).map types

/-- What the constraints of a list of pairs say, with the partner that each type is given. -/
structure Forbids (byType : Bool) (pairs : List UndoPair) (partners : List (String × String)) :
    Prop where
  written : constraints byType pairs = Text.unlines ((bans byType pairs partners).map Ban.line)
  /-- A type has one line, in the order of the first pairs. -/
  order : partners.map Prod.fst = ((lifted byType pairs).map (·.types.1)).eraseDups
  /-- The first pair of a type decides its partner. -/
  decided : ∀ entry, entry ∈ partners ↔
    ∃ p, (lifted byType pairs).find? (·.types.1 = entry.1) = some p ∧ p.types = entry
  covered : ∀ p ∈ pairs, (∃ ban ∈ bans byType pairs partners, ban.Covers p) ↔
    (p.isLifted byType → ∀ first,
      (lifted byType pairs).find? (·.types.1 = p.types.1) = some first → first.types = p.types)
  complete : (∀ p ∈ pairs, ∃ ban ∈ bans byType pairs partners, ban.Covers p) ↔
    OnePartner byType pairs
  perTypePair : OnePartner byType pairs → PerTypePair byType pairs partners

theorem constraints_forbid (byType : Bool) (pairs : List UndoPair) :
    ∃ partners, Forbids byType pairs partners := by
  have hcovered (p) (hp : p ∈ pairs) :
      (∃ ban ∈ bans byType pairs (firstPartners ((lifted byType pairs).map types)),
        ban.Covers p) ↔
      (p.isLifted byType → p.types ∈ firstPartners ((lifted byType pairs).map types)) :=
    covered_iff hp
  have hmem {p} (hp : p ∈ pairs) (hlifted : p.isLifted byType) := types_mem_iff
    (mem_lifted.mpr ⟨hp, hlifted⟩)
  have horder : (firstPartners ((lifted byType pairs).map types)).map Prod.fst =
      ((lifted byType pairs).map (·.types.1)).eraseDups := by
    rw [keys_firstPartners, List.map_map]
    rfl
  refine ⟨firstPartners ((lifted byType pairs).map types), constraints_eq_bans, horder,
    fun _ => mem_firstPartners_lifted, fun p hp => ?_, ?_, fun h => ⟨?_, fun entry => ?_⟩⟩
  · rw [hcovered p hp]
    exact forall_congr' (hmem hp)
  · rw [onePartner_iff]
    constructor
    · intro h p hp
      obtain ⟨hpair, hlifted⟩ := mem_lifted.mp hp
      exact (hmem hpair hlifted).mp ((hcovered p hpair).mp (h p hpair) hlifted)
    · intro h p hp
      exact (hcovered p hp).mpr fun hlifted =>
        (hmem hp hlifted).mpr (h p (mem_lifted.mpr ⟨hp, hlifted⟩))
  · exact List.Nodup.of_map Prod.fst (horder ▸ nodup_eraseDups _)
  · constructor
    · intro hentry
      obtain ⟨p, hp, rfl⟩ := mem_firstPartners_lifted.mp hentry
      exact List.mem_map_of_mem (find?_lifted hp).1
    · intro hentry
      obtain ⟨p, hp, rfl⟩ := List.mem_map.mp hentry
      exact (types_mem_iff hp).mpr (onePartner_iff.mp h p hp)

/-- Two pairs whose first actions have one type, and whose second actions have two. -/
def twoPartners : List UndoPair :=
  [⟨"a(x)", "b(x)"⟩, ⟨"a(y)", "c(y)"⟩]

theorem constraints_twoPartners :
    constraints true twoPartners = Text.unlines [typeConstraint ("a", "b")] ∧
      ¬ ∃ partners, PerTypePair true twoPartners partners ∧
        constraints true twoPartners =
          Text.unlines ((bans true twoPartners partners).map Ban.line) := by
  have htypes : (lifted true twoPartners).map types = [("a", "b"), ("a", "c")] := by
    decide +kernel
  have hbans (partners) : bans true twoPartners partners = partners.map .typed := by
    have hnone : twoPartners.filter (!isLifted true ·) = [] := by decide +kernel
    rw [bans, hnone]
    rfl
  refine ⟨by decide +kernel, ?_⟩
  rintro ⟨partners, ⟨hnodup, hmem⟩, htext⟩
  -- the two lines would stand in one of two orders, and neither is the text
  have hperm : partners.Perm [("a", "b"), ("a", "c")] :=
    (List.perm_ext_iff_of_nodup hnodup (by decide)).mpr (htypes ▸ hmem)
  obtain ⟨first, second, rfl⟩ := List.length_eq_two.mp hperm.length_eq
  have hfirst : first ∈ [("a", "b"), ("a", "c")] := hperm.subset (by simp)
  have hsecond : second ∈ [("a", "b"), ("a", "c")] := hperm.subset (by simp)
  rw [hbans] at htext
  simp only [List.mem_cons, List.not_mem_nil, or_false] at hfirst hsecond
  rcases hfirst with rfl | rfl <;> rcases hsecond with rfl | rfl <;> revert htext <;>
    decide +kernel

end StrongCyclic.UndoPair
