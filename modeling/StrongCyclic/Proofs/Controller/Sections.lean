import StrongCyclic.Controller.TextForm
import StrongCyclic.Proofs.Controller.Built
import StrongCyclic.Proofs.Text.Search

/-!
The sections of the text form. Their lines are plain and none of them is a divider, so reading finds
the sections again, whatever stands behind the sixth one.
-/

namespace StrongCyclic

open Text (Plain)

namespace Controller

/-! ### Sections -/

theorem sectionsOf_append {block : List TextLine}
    (h : ∀ line ∈ block, line.2 ≠ divider ∧ line.2 ≠ "") (number : Nat) (rest : List TextLine) :
    sectionsOf (block ++ (number, divider) :: rest) = block :: sectionsOf rest := by
  induction block with
  | nil => simp [sectionsOf]
  | cons line block ih =>
    obtain ⟨⟨hdivider, hempty⟩, hblock⟩ := List.forall_mem_cons.mp h
    simp [sectionsOf, hdivider, hempty, ih hblock]

/-- Blocks of lines that are closed by dividers are the first sections. -/
theorem sectionsOf_blocks {blocks : List (List String)}
    (hblocks : ∀ block ∈ blocks, ∀ line ∈ block, line ≠ divider ∧ line ≠ "") {lines : List TextLine}
    {rest : List String} (h : lines.map Prod.snd = blocks.flatMap (· ++ [divider]) ++ rest) :
    ∃ found more, sectionsOf lines = found ++ more ∧ found.map (List.map Prod.snd) = blocks := by
  induction blocks generalizing lines with
  | nil => exact ⟨[], _, rfl, rfl⟩
  | cons block blocks ih =>
    obtain ⟨hblock, htail⟩ := List.forall_mem_cons.mp hblocks
    rw [List.flatMap_cons, List.append_assoc, List.append_assoc, List.singleton_append] at h
    obtain ⟨first, others, rfl, rfl, hothers⟩ := List.map_eq_append_iff.mp h
    obtain ⟨⟨number, line⟩, others, rfl, hline, hrest⟩ := List.map_eq_cons_iff.mp hothers
    obtain rfl : line = divider := hline
    obtain ⟨found, more, hfound, rfl⟩ := ih htail hrest
    refine ⟨first :: found, more, ?_, rfl⟩
    rw [sectionsOf_append fun l hl => hblock l.2 (List.mem_map_of_mem hl), hfound]
    rfl

/-- The lines of the sections. -/
def textBlocks (c : Controller) : List (List String) :=
  [["ANSWER:" ++ toString c.answer], ["Initial State:" ++ toString c.initial],
    ["Goal State:" ++ toString c.goal], c.states.flatMap fun (id, s) => stateLines id s,
    "Transitions:" :: c.transitions.map c.transitionLine,
    "Policy:" :: c.policy.map fun (id, action) => policyLine id action]

theorem textLines_eq (c : Controller) : c.textLines = c.textBlocks.flatMap (· ++ [divider]) := by
  simp [textLines, textBlocks]

/-- The actions of the policy are plain. -/
def PlainActions (c : Controller) : Prop :=
  ∀ entry ∈ c.policy, Plain entry.2

instance (c : Controller) : Decidable c.PlainActions :=
  inferInstanceAs (Decidable (∀ entry ∈ c.policy, _))

/-! ### The lines of the sections -/

/-- The tag of an outcome is plain and has no comma in it. -/
theorem plain_tag {tag : String} (h : (outcomeIndex? tag).isSome) :
    Plain tag ∧ ',' ∉ tag.toList := by
  unfold outcomeIndex? at h
  cases hnumber : (Text.afterPrefix? "e" tag).bind Text.natural? with
  | none => simp [hnumber] at h
  | some number =>
    obtain ⟨rest, hrest, hnatural⟩ := Option.bind_eq_some_iff.mp hnumber
    obtain ⟨digits, hcs, hvalue, -⟩ := Text.naturalOf?_eq_some hnatural
    have hdigits := Text.isDigit_of_digitsValue? hvalue
    have htag : tag = "e" ++ rest := Text.eq_append_of_afterPrefix? hrest
    have hchars : ∀ c ∈ tag.toList, c = 'e' ∨ c = '+' ∨ c.isDigit := by
      intro c hc
      rw [htag, String.toList_append] at hc
      rcases List.mem_append.mp hc with hc | hc
      · exact .inl (by simpa using hc)
      · rcases hcs with hcs | hcs <;> rw [hcs] at hc
        · exact .inr (.inr (hdigits c hc))
        · rcases List.mem_cons.mp hc with rfl | hc
          · exact .inr (.inl rfl)
          · exact .inr (.inr (hdigits c hc))
    refine ⟨Text.plain_of_not_isBlank fun c hc => ?_, fun hcomma => ?_⟩
    · rcases hchars c hc with rfl | rfl | hdigit
      · decide
      · decide
      · exact Text.isBlank_of_isDigit hdigit
    · exact absurd (hchars _ hcomma) (by decide)

theorem mem_of_policy? {c : Controller} {id : Nat} {action : String}
    (h : c.policy? id = some action) : (id, action) ∈ c.policy := by
  obtain ⟨before, after, hpolicy, -⟩ := List.lookup_eq_some_iff.mp h
  simp [hpolicy]

theorem plain_policyText {c : Controller} (h : c.PlainActions) (id : Nat) :
    Plain (c.policyText id) := by
  unfold policyText
  cases haction : c.policy? id with
  | none => rw [Option.getD_none]; decide
  | some action => rw [Option.getD_some]; exact h (id, action) (mem_of_policy? haction)

theorem plain_transitionLine {c : Controller} (h : c.PlainActions) {t : Transition}
    (ht : (outcomeIndex? t.tag).isSome) : Plain (c.transitionLine t) := by
  have hmark : ∀ mark ∈ ["--", ",", "-->"], Plain mark := by decide
  simp only [List.forall_mem_cons] at hmark
  obtain ⟨hdashes, hcomma, harrow, -⟩ := hmark
  exact (((((Text.plain_toString _).append hdashes).append (plain_policyText h _)).append
    hcomma).append (plain_tag ht).1).append harrow |>.append (Text.plain_toString _)

/-- The line is plain, and it neither closes a section nor is it skipped in one. -/
def SectionLine (line : String) : Prop :=
  Plain line ∧ line ≠ divider ∧ line ≠ ""

theorem sectionLine_toString {n : Nat} {s : String} (h : Plain (toString n ++ s)) :
    SectionLine (toString n ++ s) :=
  ⟨h, Text.toString_append_ne (by simp [divider]), Text.toString_append_ne (by simp)⟩

theorem sectionLine_append {s t : String} (hs : s.toList ≠ []) (hdash : s.toList.head? ≠ some '-')
    (h : Plain (s ++ t)) : SectionLine (s ++ t) := by
  obtain ⟨a, cs, hcs⟩ := List.exists_cons_of_ne_nil hs
  have hhead : (s ++ t).toList.head? = some a := by
    rw [String.toList_append, hcs]
    rfl
  refine ⟨h, fun heq => hdash ?_, fun heq => ?_⟩
  · rw [heq] at hhead
    rw [hcs, List.head?_cons, ← hhead]
    decide
  · rw [heq] at hhead
    cases hhead

theorem sectionLine_header {s : String} (hs : s.toList ≠ []) (hdash : s.toList.head? ≠ some '-')
    (h : Plain s) (n : Nat) : SectionLine (s ++ toString n) :=
  sectionLine_append hs hdash (h.append (Text.plain_toString n))

theorem sectionLine_stateLines (id : Nat) (s : State) :
    ∀ line ∈ stateLines id s, SectionLine line := by
  refine List.forall_mem_cons.mpr
    ⟨sectionLine_header (by decide) (by decide) (by decide) id, fun line hline => ?_⟩
  obtain ⟨⟨var, value⟩, -, rfl⟩ := List.mem_map.mp hline
  dsimp only
  rw [String.append_assoc]
  exact sectionLine_toString (.append (Text.plain_toString var)
    (.append (by decide) (Text.plain_toString value)))

theorem sectionLine_transitionLine {c : Controller} (h : c.PlainActions) {t : Transition}
    (ht : (outcomeIndex? t.tag).isSome) : SectionLine (c.transitionLine t) := by
  have hline := plain_transitionLine h ht
  unfold transitionLine at *
  simp only [String.append_assoc] at *
  exact sectionLine_toString hline

theorem sectionLine_policyLine {id : Nat} {action : String} (h : Plain action) :
    SectionLine (policyLine id action) := by
  unfold policyLine
  rw [String.append_assoc]
  exact sectionLine_toString (.append (Text.plain_toString id) (.append (by decide) h))

/-- The lines of the sections are read as they are written. -/
theorem Finished.sectionLine {n : Nat} {c : Controller} (h : Finished n c)
    (hplain : c.PlainActions) : ∀ block ∈ c.textBlocks, ∀ line ∈ block, SectionLine line := by
  have htitle : ∀ title ∈ ["Transitions:", "Policy:"], SectionLine title := by
    simp only [SectionLine]
    decide
  simp only [textBlocks, List.forall_mem_cons, List.not_mem_nil, false_imp_iff, implies_true,
    and_true]
  refine ⟨sectionLine_header (by decide) (by decide) (by decide) _,
    sectionLine_header (by decide) (by decide) (by decide) _,
    sectionLine_header (by decide) (by decide) (by decide) _, fun line hline => ?_,
    ⟨htitle _ (by simp), fun line hline => ?_⟩, htitle _ (by simp), fun line hline => ?_⟩
  · obtain ⟨⟨id, s⟩, -, hline⟩ := List.mem_flatMap.mp hline
    exact sectionLine_stateLines id s line hline
  · obtain ⟨t, ht, rfl⟩ := List.mem_map.mp hline
    exact sectionLine_transitionLine hplain (h.tags t ht)
  · obtain ⟨⟨id, action⟩, hmem, rfl⟩ := List.mem_map.mp hline
    exact sectionLine_policyLine (hplain _ hmem)

/-- The sections of the text form are found in it, with any text behind it. -/
theorem Finished.sections_text {n : Nat} {c : Controller} (h : Finished n c)
    (hplain : c.PlainActions) (rest : String) :
    ∃ found more, sections (c.text ++ rest) = found ++ more ∧
      found.map (List.map Prod.snd) = c.textBlocks := by
  have hlines := h.sectionLine hplain
  have hplainLines : ∀ line ∈ c.textLines, Plain line := by
    intro line hline
    rw [textLines_eq] at hline
    obtain ⟨block, hblock, hline⟩ := List.mem_flatMap.mp hline
    rcases List.mem_append.mp hline with hline | hline
    · exact (hlines block hblock line hline).1
    · rw [List.mem_singleton.mp hline]
      decide
  have htrim : c.textLines.map Text.trim = c.textLines :=
    (List.map_congr_left fun line hline => (hplainLines line hline).1).trans (List.map_id' _)
  have hsnd : ((Text.lines (c.text ++ rest)).mapIdx
      fun i line => (i + 1, Text.trim line)).map Prod.snd =
      c.textBlocks.flatMap (· ++ [divider]) ++ (Text.lines rest).map Text.trim := by
    calc
      _ = (Text.lines (c.text ++ rest)).map Text.trim := List.ext_getElem (by simp) (by simp)
      _ = (c.textLines ++ Text.lines rest).map Text.trim := by
        rw [text, Text.lines_unlines_append hplainLines]
      _ = _ := by rw [List.map_append, htrim, textLines_eq]
  exact sectionsOf_blocks (fun block hblock line hline => (hlines block hblock line hline).2) hsnd

end Controller

end StrongCyclic
