import StrongCyclic.Proofs.Sas.Checked
import StrongCyclic.Proofs.Text.Plain
import StrongCyclic.Proofs.Text.Search

/-!
The keys of the operators of a task file. The header of an operator block is made of words, so the
key of an operator is plain.
-/

namespace StrongCyclic

open Text (Plain)

theorem plain_actionKey {name : String} {arguments : List String} (hname : Plain name)
    (harguments : ∀ argument ∈ arguments, Plain argument) : Plain (actionKey name arguments) := by
  refine .append (.append (.append hname (by decide)) ?_) (by decide)
  exact Text.plain_intercalate (by decide) harguments

/-- The parts of a header are words, or the front of a word. -/
theorem Header.plain_of_parse? {line : String} {header : Header}
    (h : Header.parse? line = some header) :
    Plain header.stem ∧ ∀ argument ∈ header.arguments, Plain argument := by
  unfold Header.parse? at h
  cases hwords : Text.words line with
  | nil => simp [hwords] at h
  | cons name arguments =>
    have hword : ∀ word ∈ name :: arguments, ∀ c ∈ word.toList, Text.isBlank c = false :=
      fun word hword => Text.not_isBlank_of_mem_words (hwords ▸ hword)
    obtain ⟨hname, harguments⟩ := List.forall_mem_cons.mp hword
    rw [hwords] at h
    obtain rfl : ofWords name arguments = header := Option.some.inj h
    have hplain : ∀ argument ∈ arguments, Plain argument :=
      fun argument hmem => Text.plain_of_not_isBlank (harguments argument hmem)
    unfold ofWords
    cases hcut : cutOutcome? name.toList with
    | none => exact ⟨Text.plain_of_not_isBlank hname, hplain⟩
    | some cut =>
      refine ⟨Text.plain_of_not_isBlank fun c hc => hname c ?_, hplain⟩
      obtain ⟨⟨before, after⟩, -, rfl⟩ := Option.map_eq_some_iff.mp hcut
      rw [String.toList_ofList] at hc
      exact List.mem_of_mem_take hc

namespace Sas

/-- The header of an operator block stands in one of its lines. -/
theorem Splits.exists_header {lines : List Line} {blocks : List Block} (h : Splits lines blocks)
    {op : Operator} (hop : .operator op ∈ blocks) : ∃ line, Header.parse? line = some op.header := by
  induction h with
  | nil => cases hop
  | skip _ _ ih => exact ih hop
  | block hbody _ ih =>
    rcases List.mem_cons.mp hop with rfl | hop
    · cases hbody with
      | operator _ hheader => exact ⟨_, hheader⟩
    · exact ih hop

theorem mem_operatorsOf {blocks : List Block} {op : Operator} :
    op ∈ operatorsOf blocks ↔ .operator op ∈ blocks := by
  simp only [operatorsOf, List.mem_filterMap]
  constructor
  · rintro ⟨block, hblock, hop⟩
    cases block <;> cases hop
    exact hblock
  · exact fun h => ⟨_, h, rfl⟩

/-- The keys of the operators are plain. -/
theorem plain_of_mem_groups {file : String} {t : Task} (h : parse file = .ok t) {key : String}
    {outcomes : List Action} (hgroup : (key, outcomes) ∈ t.groups) : Plain key := by
  obtain ⟨last, blocks, hsplits, -, htask⟩ := exists_blocks_of_parse h
  obtain ⟨ht, hheaders⟩ := inDomains_of_taskOf htask
  obtain ⟨first, rest, rfl⟩ := List.exists_cons_of_ne_nil (ht.nonempty _ _ hgroup)
  obtain ⟨op, hop, hheader⟩ := hheaders _ _ hgroup first List.mem_cons_self
  obtain ⟨line, hline⟩ := hsplits.exists_header (mem_operatorsOf.mp hop)
  obtain ⟨hstem, harguments⟩ := Header.plain_of_parse? hline
  obtain ⟨hkey, -⟩ := ht.grounded _ _ hgroup first List.mem_cons_self
  rw [← hkey, Action.groupKey, hheader]
  exact plain_actionKey hstem harguments

end Sas

end StrongCyclic
