import StrongCyclic.Text.Search

/-!
Cutting what has been put together. A mark is found where it was put, if it starts nowhere before; this
holds if its first character does not occur before it. For a search from the end, its last character
may not occur after it.
-/

namespace StrongCyclic.Text

theorem afterPrefixChars?_append (pattern cs : List Char) :
    afterPrefixChars? pattern (pattern ++ cs) = some cs := by
  induction pattern with
  | nil => cases cs <;> rfl
  | cons p pattern ih => simp [afterPrefixChars?, ih]

theorem afterPrefix?_append (pattern s : String) : afterPrefix? pattern (pattern ++ s) = some s := by
  simp [afterPrefix?, afterPrefixChars?_append]

theorem beforeSuffix?_append (s ending : String) :
    beforeSuffix? ending (s ++ ending) = some s := by
  rw [beforeSuffix?, String.toList_append, List.reverse_append, afterPrefixChars?_append]
  simp

theorem append_of_afterPrefixChars? {pattern cs rest : List Char}
    (h : afterPrefixChars? pattern cs = some rest) : cs = pattern ++ rest := by
  induction pattern generalizing cs with
  | nil =>
    cases cs <;> cases h <;> rfl
  | cons p pattern ih =>
    cases cs with
    | nil => cases h
    | cons c cs =>
      rw [afterPrefixChars?] at h
      split at h
      · next hp => rw [hp, ih h, List.cons_append]
      · cases h

theorem afterPrefixChars?_eq_none_iff {pattern cs : List Char} :
    afterPrefixChars? pattern cs = none ↔ ¬ pattern <+: cs := by
  rw [Option.eq_none_iff_forall_not_mem]
  constructor
  · rintro h ⟨rest, rfl⟩
    exact h rest (afterPrefixChars?_append _ _)
  · exact fun h rest hrest => h ⟨rest, (append_of_afterPrefixChars? hrest).symm⟩

theorem cutChars?_self_append (pattern after : List Char) :
    cutChars? pattern (pattern ++ after) = some ([], after) := by
  have hfound := afterPrefixChars?_append pattern after
  cases hcs : pattern ++ after with
  | nil =>
    rw [hcs] at hfound
    rw [cutChars?, hfound]
    rfl
  | cons c cs =>
    rw [hcs] at hfound
    rw [cutChars?, hfound]

/-- A pattern is found where it was put, if it starts nowhere before. -/
theorem cutChars?_append_of_first {pattern before after : List Char}
    (h : ∀ rest, rest <:+ before → rest ≠ [] → ¬ pattern <+: rest ++ (pattern ++ after)) :
    cutChars? pattern (before ++ (pattern ++ after)) = some (before, after) := by
  induction before with
  | nil => exact cutChars?_self_append pattern after
  | cons c before ih =>
    have hfirst :=
      afterPrefixChars?_eq_none_iff.mpr (h _ List.suffix_rfl (List.cons_ne_nil c before))
    have hrest := ih fun rest hrest => h rest (hrest.trans (List.suffix_cons c before))
    rw [List.cons_append] at hfirst ⊢
    rw [cutChars?, hfirst, hrest]
    rfl

theorem cutChars?_append {p : Char} {before : List Char} (pattern after : List Char)
    (h : p ∉ before) :
    cutChars? (p :: pattern) (before ++ (p :: pattern ++ after)) = some (before, after) := by
  refine cutChars?_append_of_first fun rest hrest hne hprefix => ?_
  obtain ⟨c, cs, rfl⟩ := List.exists_cons_of_ne_nil hne
  obtain ⟨rfl, -⟩ := List.cons_prefix_cons.mp hprefix
  exact h (hrest.subset List.mem_cons_self)

theorem cutFirst?_append {p : Char} {before after mark : String}
    (hmark : mark.toList.head? = some p) (h : p ∉ before.toList) :
    cutFirst? mark (before ++ (mark ++ after)) = some (before, after) := by
  obtain ⟨pattern, hpattern⟩ := List.head?_eq_some_iff.mp hmark
  rw [cutFirst?, String.toList_append, String.toList_append, hpattern, cutChars?_append _ _ h]
  simp

theorem cutLast?_append {p : Char} {before after mark : String}
    (hmark : mark.toList.getLast? = some p) (h : p ∉ after.toList) :
    cutLast? mark (before ++ (mark ++ after)) = some (before, after) := by
  obtain ⟨pattern, hpattern⟩ := List.getLast?_eq_some_iff.mp hmark
  have hreverse : (before ++ (mark ++ after)).toList.reverse =
      after.toList.reverse ++ (p :: pattern.reverse ++ before.toList.reverse) := by
    simp [hpattern]
  have hmark : mark.toList.reverse = p :: pattern.reverse := by simp [hpattern]
  rw [cutLast?, hreverse, hmark, cutChars?_append _ _ (by simpa using h)]
  simp

theorem isSome_cutChars?_append (pattern before after : List Char) :
    (cutChars? pattern (before ++ (pattern ++ after))).isSome = true := by
  induction before with
  | nil =>
    rw [List.nil_append, cutChars?_self_append]
    rfl
  | cons c before ih =>
    rw [List.cons_append, cutChars?]
    split
    · rfl
    · rw [Option.isSome_map, ih]

theorem contains_append (pattern before after : String) :
    contains pattern (before ++ (pattern ++ after)) = true := by
  rw [contains, String.toList_append, String.toList_append]
  exact isSome_cutChars?_append _ _ _

/-! ### The end of a text that is found -/

theorem eq_append_of_afterPrefix? {pattern s rest : String}
    (h : afterPrefix? pattern s = some rest) : s = pattern ++ rest := by
  obtain ⟨cs, hcs, rfl⟩ := Option.map_eq_some_iff.mp h
  rw [← String.toList_inj, append_of_afterPrefixChars? hcs]
  simp

theorem eq_append_of_beforeSuffix? {s ending before : String}
    (h : beforeSuffix? ending s = some before) : s = before ++ ending := by
  obtain ⟨cs, hcs, rfl⟩ := Option.map_eq_some_iff.mp h
  rw [← String.toList_inj, String.toList_append, String.toList_ofList,
    ← List.reverse_inj, append_of_afterPrefixChars? hcs]
  simp

theorem append_of_cutChars? {pattern cs before after : List Char}
    (h : cutChars? pattern cs = some (before, after)) : cs = before ++ (pattern ++ after) := by
  induction cs generalizing before with
  | nil =>
    obtain ⟨rest, hrest, heq⟩ := Option.map_eq_some_iff.mp h
    cases heq
    exact (append_of_afterPrefixChars? hrest).trans (List.nil_append _).symm
  | cons c cs ih =>
    rw [cutChars?] at h
    split at h
    · next rest hrest =>
      cases h
      rw [append_of_afterPrefixChars? hrest, List.nil_append]
    · obtain ⟨⟨before', after'⟩, hcut, heq⟩ := Option.map_eq_some_iff.mp h
      cases heq
      rw [ih hcut, List.cons_append]

theorem subset_of_cutFirst? {mark s before after : String}
    (h : cutFirst? mark s = some (before, after)) : after.toList ⊆ s.toList := by
  obtain ⟨⟨before', after'⟩, hcut, heq⟩ := Option.map_eq_some_iff.mp h
  cases heq
  rw [String.toList_ofList, append_of_cutChars? hcut]
  simp

/-! ### Occurrences -/

theorem isSome_cutChars?_iff {pattern cs : List Char} :
    (cutChars? pattern cs).isSome = true ↔ pattern <:+: cs := by
  rw [Option.isSome_iff_exists]
  constructor
  · rintro ⟨⟨before, after⟩, hcut⟩
    exact ⟨before, after, by rw [append_of_cutChars? hcut, List.append_assoc]⟩
  · rintro ⟨before, after, rfl⟩
    rw [← Option.isSome_iff_exists, List.append_assoc]
    exact isSome_cutChars?_append _ _ _

theorem contains_iff {pattern s : String} :
    contains pattern s = true ↔ pattern.toList <:+: s.toList :=
  isSome_cutChars?_iff

/-- A text does not occur where one of its characters does not. -/
theorem contains_eq_false {pattern s : String} {c : Char} (hc : c ∈ pattern.toList)
    (h : c ∉ s.toList) : contains pattern s = false :=
  Bool.eq_false_iff.mpr fun hcontains => h ((contains_iff.mp hcontains).subset hc)

theorem afterPrefix?_eq_none_iff {pattern s : String} :
    afterPrefix? pattern s = none ↔ ¬ pattern.toList <+: s.toList := by
  rw [afterPrefix?, Option.map_eq_none_iff, afterPrefixChars?_eq_none_iff]

end StrongCyclic.Text
