import StrongCyclic.Proofs.Fallible
import StrongCyclic.Sas.Task

/-!
The format of a task file, said of its lines and without a reader. `Splits` cuts the trimmed lines
without the blank ones into blocks and skipped lines, `Fits` asks that the indices of the blocks fit
the variables, and `described` is the task of the blocks. `Describes` puts the three together.
`Overruns` says of lines that one of them announces more entries than a list can have; files whose own
lines can be listed have no such lists.
-/

namespace StrongCyclic.Sas

/-- The tags that open a block. -/
def beginTags : List String :=
  ["begin_variable", "begin_operator", "begin_state", "begin_goal", "begin_mutex_group"]

namespace Line

/-- The line is one integer. -/
def IsInteger (l : Line) (value : Int) : Prop :=
  Text.integer? l.text = some value

/-- The line is made of integers between blanks. -/
def AreIntegers (l : Line) (values : List Int) : Prop :=
  List.Forall₂ (fun word value => Text.integer? word = some value) (Text.words l.text) values

/-- The line starts with a variable and a value. -/
def IsFact (l : Line) (fact : Fact) : Prop :=
  l.number = fact.line ∧ ∃ more, l.AreIntegers (fact.var :: fact.value :: more)

/-- The line starts with zero, a variable, its previous value and its next value. -/
def IsChange (l : Line) (change : Change) : Prop :=
  l.number = change.line ∧
    ∃ more, l.AreIntegers (0 :: change.var :: change.prev :: change.next :: more)

end Line

/-- The lines that follow a begin tag, up to the end tag, make up the rest of a block. -/
inductive Body : Line → List Line → Block → Prop
  | declaration {tag name layer size close : Line} {labels : List Line} {depth : Int}
      (htag : tag.text = "begin_variable") (hlayer : layer.IsInteger depth)
      (hsize : size.IsInteger labels.length) (hclose : close.text = "end_variable") :
      Body tag (name :: layer :: size :: (labels ++ [close]))
        (.variable ⟨name.text, labels.map (·.text)⟩)
  | operator {tag name prevailCount changeCount price close : Line}
      {prevailLines changeLines : List Line} {op : Operator}
      (htag : tag.text = "begin_operator") (hheader : Header.parse? name.text = some op.header)
      (hprevailCount : prevailCount.IsInteger prevailLines.length)
      (hprevail : List.Forall₂ Line.IsFact prevailLines op.prevail)
      (hchangeCount : changeCount.IsInteger changeLines.length)
      (hchanges : List.Forall₂ Line.IsChange changeLines op.changes)
      (hprice : price.IsInteger op.cost) (hcost : op.cost < 4294967296)
      (hclose : close.text = "end_operator") :
      Body tag (name :: prevailCount :: (prevailLines ++ changeCount ::
        (changeLines ++ [price, close]))) (.operator op)
  | state {tag close : Line} {lines : List Line} {values : List Nat}
      (htag : tag.text = "begin_state")
      (hvalues : List.Forall₂ (fun l (value : Nat) => l.IsInteger value) lines values)
      (hclose : close.text = "end_state") :
      Body tag (lines ++ [close]) (.state tag.number values)
  | goal {tag size close : Line} {lines : List Line} {facts : List Fact}
      (htag : tag.text = "begin_goal") (hsize : size.IsInteger lines.length)
      (hfacts : List.Forall₂ Line.IsFact lines facts) (hclose : close.text = "end_goal") :
      Body tag (size :: (lines ++ [close])) (.goal facts)
  | mutex {tag size close : Line} {lines : List Line} {facts : List Fact}
      (htag : tag.text = "begin_mutex_group") (hsize : size.IsInteger lines.length)
      (hfacts : List.Forall₂ Line.IsFact lines facts) (hclose : close.text = "end_mutex_group") :
      Body tag (size :: (lines ++ [close])) (.mutex facts)

/-- The lists of the block have no more entries than lists can have. -/
def Block.Roomy : Block → Prop
  | .variable v => v.domain.length ≤ Word.capacity Reader.labelBytes
  | .operator op => op.prevail.length ≤ Word.capacity Reader.factBytes ∧
    op.changes.length ≤ Word.capacity Reader.changeBytes
  | .state _ _ => True
  | .goal facts => facts.length ≤ Word.capacity Reader.factBytes
  | .mutex facts => facts.length ≤ Word.capacity Reader.factBytes

instance : (block : Block) → Decidable block.Roomy
  | .variable _ => inferInstanceAs (Decidable (_ ≤ _))
  | .operator _ => inferInstanceAs (Decidable (_ ∧ _))
  | .state _ _ => inferInstanceAs (Decidable True)
  | .goal _ => inferInstanceAs (Decidable (_ ≤ _))
  | .mutex _ => inferInstanceAs (Decidable (_ ≤ _))

/-- The lines that follow a begin tag go on like a block up to a line that announces more entries than
a list can have. -/
inductive Announces : Line → List Line → Prop
  | labels {tag name layer size : Line} {rest : List Line} {depth : Int} {n : Nat}
      (htag : tag.text = "begin_variable") (hlayer : layer.IsInteger depth) (hsize : size.IsInteger n)
      (hmany : Word.capacity Reader.labelBytes < n) : Announces tag (name :: layer :: size :: rest)
  | prevail {tag name prevailCount : Line} {rest : List Line} {header : Header} {n : Nat}
      (htag : tag.text = "begin_operator") (hheader : Header.parse? name.text = some header)
      (hprevailCount : prevailCount.IsInteger n) (hmany : Word.capacity Reader.factBytes < n) :
      Announces tag (name :: prevailCount :: rest)
  | changes {tag name prevailCount changeCount : Line} {prevailLines rest : List Line}
      {header : Header} {prevail : List Fact} {n : Nat}
      (htag : tag.text = "begin_operator") (hheader : Header.parse? name.text = some header)
      (hprevailCount : prevailCount.IsInteger prevailLines.length)
      (hprevail : List.Forall₂ Line.IsFact prevailLines prevail)
      (hchangeCount : changeCount.IsInteger n) (hmany : Word.capacity Reader.changeBytes < n) :
      Announces tag (name :: prevailCount :: (prevailLines ++ changeCount :: rest))
  | facts {tag size : Line} {rest : List Line} {n : Nat}
      (htag : tag.text = "begin_goal" ∨ tag.text = "begin_mutex_group") (hsize : size.IsInteger n)
      (hmany : Word.capacity Reader.factBytes < n) : Announces tag (size :: rest)

/-- The lines, read from the first to the last, are blocks and lines that open none. -/
inductive Splits : List Line → List Block → Prop
  | nil : Splits [] []
  | skip {l : Line} {rest : List Line} {blocks : List Block} (hl : l.text ∉ beginTags)
      (hrest : Splits rest blocks) : Splits (l :: rest) blocks
  | block {tag : Line} {body rest : List Line} {block : Block} {blocks : List Block}
      (hbody : Body tag body block) (hrest : Splits rest blocks) :
      Splits (tag :: (body ++ rest)) (block :: blocks)

/-- Behind blocks and lines that open none, a block announces more entries than a list can have. -/
inductive Overruns : List Line → Prop
  | here {tag : Line} {rest : List Line} (hrest : Announces tag rest) : Overruns (tag :: rest)
  | skip {l : Line} {rest : List Line} (hl : l.text ∉ beginTags) (hrest : Overruns rest) :
      Overruns (l :: rest)
  | block {tag : Line} {body rest : List Line} {block : Block}
      (hbody : Body tag body block) (hrest : Overruns rest) : Overruns (tag :: (body ++ rest))

/-- A block whose lists are too long announces so. -/
theorem Body.announces {tag : Line} {body : List Line} {block : Block} (h : Body tag body block)
    (hroom : ¬ block.Roomy) (rest : List Line) : Announces tag (body ++ rest) := by
  cases h with
  | declaration htag hlayer hsize =>
    exact .labels htag hlayer hsize (by simpa [Block.Roomy] using hroom)
  | @operator name prevailCount changeCount price close prevailLines changeLines op htag hheader
      hprevailCount hprevail hchangeCount hchanges =>
    by_cases hmany : Word.capacity Reader.factBytes < prevailLines.length
    · exact .prevail htag hheader hprevailCount hmany
    · have hchangeMany : Word.capacity Reader.changeBytes < changeLines.length := by
        rw [hchanges.length_eq, ← Nat.not_le]
        rw [hprevail.length_eq, Nat.not_lt] at hmany
        exact fun hle => hroom ⟨hmany, hle⟩
      have hannounces : Announces tag (name :: prevailCount ::
          (prevailLines ++ changeCount :: (changeLines ++ [price, close] ++ rest))) :=
        .changes htag hheader hprevailCount hprevail hchangeCount hchangeMany
      simpa using hannounces
  | state => exact absurd trivial hroom
  | goal htag hsize hfacts =>
    exact .facts (.inl htag) hsize (by rw [hfacts.length_eq]; exact Nat.lt_of_not_le hroom)
  | mutex htag hsize hfacts =>
    exact .facts (.inr htag) hsize (by rw [hfacts.length_eq]; exact Nat.lt_of_not_le hroom)

theorem Splits.overruns {lines : List Line} {blocks : List Block} (h : Splits lines blocks)
    {block : Block} (hblock : block ∈ blocks) (hroom : ¬ block.Roomy) : Overruns lines := by
  induction h with
  | nil => cases hblock
  | skip hl _ ih => exact .skip hl (ih hblock)
  | @block tag body rest first blocks hbody _ ih =>
    obtain rfl | hblock := List.mem_cons.mp hblock
    · exact .here (hbody.announces hroom rest)
    · exact .block hbody (ih hblock)

theorem Splits.roomy_of_not_overruns {lines : List Line} {blocks : List Block}
    (h : Splits lines blocks) (hno : ¬ Overruns lines) : ∀ block ∈ blocks, block.Roomy :=
  fun _ hblock => Decidable.not_not.mp fun hroom => hno (h.overruns hblock hroom)

/-- There is room for what stands in as many lines as a list of the longest entries can have. -/
theorem Body.roomy {tag : Line} {body : List Line} {block : Block} (h : Body tag body block)
    (hfew : body.length ≤ Word.capacity Reader.changeBytes) : block.Roomy := by
  have hle : Word.capacity Reader.changeBytes ≤ Word.capacity Reader.factBytes := by decide
  cases h with
  | declaration =>
    simp only [List.length_cons, List.length_append] at hfew
    rw [Block.Roomy, List.length_map]
    exact Nat.le_trans (by omega) hle
  | operator _ _ _ hprevail _ hchanges =>
    simp only [List.length_cons, List.length_append] at hfew
    rw [Block.Roomy, ← hprevail.length_eq, ← hchanges.length_eq]
    exact ⟨Nat.le_trans (by omega) hle, by omega⟩
  | state => trivial
  | goal _ _ hfacts =>
    simp only [List.length_cons, List.length_append] at hfew
    rw [Block.Roomy, ← hfacts.length_eq]
    exact Nat.le_trans (by omega) hle
  | mutex _ _ hfacts =>
    simp only [List.length_cons, List.length_append] at hfew
    rw [Block.Roomy, ← hfacts.length_eq]
    exact Nat.le_trans (by omega) hle

theorem Splits.roomy {lines : List Line} {blocks : List Block} (h : Splits lines blocks)
    (hfew : lines.length ≤ Word.capacity Reader.changeBytes) : ∀ block ∈ blocks, block.Roomy := by
  induction h with
  | nil => exact List.forall_mem_nil _
  | skip _ _ ih => exact ih (Nat.le_of_succ_le hfew)
  | block hbody _ ih =>
    simp only [List.length_cons, List.length_append] at hfew
    exact List.forall_mem_cons.mpr ⟨hbody.roomy (by omega), ih (by omega)⟩

/-- The variable exists and has the value. -/
def HasValue (sizes : List Nat) (var value : Nat) : Prop :=
  ∃ size, sizes[var]? = some size ∧ value < size

theorem hasValue_iff {sizes : List Nat} {var value : Nat} :
    HasValue sizes var value ↔ value < sizes.getD var 0 := by
  rw [HasValue, List.getD_eq_getElem?_getD]
  cases sizes[var]? <;> simp

instance (sizes : List Nat) (var value : Nat) : Decidable (HasValue sizes var value) :=
  decidable_of_iff _ hasValue_iff.symm

namespace Fact

/-- The fact as a pair. -/
def pair (fact : Fact) : Nat × Nat :=
  (fact.var, fact.value)

/-- The fact is one of the variables of the given sizes. -/
def Fits (sizes : List Nat) (fact : Fact) : Prop :=
  HasValue sizes fact.var fact.value

instance (sizes : List Nat) (fact : Fact) : Decidable (fact.Fits sizes) :=
  inferInstanceAs (Decidable (HasValue _ _ _))

end Fact

namespace Change

/-- The previous value, if the change has one. -/
def previous (change : Change) : Option Nat :=
  if change.prev = -1 then none else some change.prev.toNat

/-- The change without its line. -/
def described (change : Change) : ValueChange :=
  ⟨change.var, change.previous, change.next⟩

/-- The next value is one of the variable, and the previous value is one too or is -1. -/
def Fits (sizes : List Nat) (change : Change) : Prop :=
  HasValue sizes change.var change.next ∧
    (change.prev = -1 ∨ 0 ≤ change.prev ∧ HasValue sizes change.var change.prev.toNat)

instance (sizes : List Nat) (change : Change) : Decidable (change.Fits sizes) :=
  inferInstanceAs (Decidable (_ ∧ _))

end Change

/-- The partial state of facts, the later fact of a variable winning. -/
def factState (sizes : List Nat) (facts : List Fact) : State :=
  State.ofPairs sizes.length (facts.map Fact.pair)

namespace Operator

/-- The action of an operator whose indices fit the variables. -/
def described (sizes : List Nat) (op : Operator) : Action :=
  Action.ofChanges op.header (factState sizes op.prevail) (op.changes.map Change.described) op.cost
    sizes

/-- All indices of the operator fit the variables. -/
def Fits (sizes : List Nat) (op : Operator) : Prop :=
  (∀ fact ∈ op.prevail, fact.Fits sizes) ∧ ∀ change ∈ op.changes, change.Fits sizes

instance (sizes : List Nat) (op : Operator) : Decidable (op.Fits sizes) :=
  inferInstanceAs (Decidable (_ ∧ _))

end Operator

/-- The sizes of the variables that the blocks declare. -/
def sizesOf (blocks : List Block) : List Nat :=
  (variablesOf blocks).map Variable.domainSize

/-- The values are those of the last state block, one for each variable, and all indices of the
blocks that count fit the variables. -/
structure Fits (blocks : List Block) (values : List Nat) : Prop where
  initial : (stateOf? blocks).map Prod.snd = some values
  values : List.Forall₂ (· < ·) values (sizesOf blocks)
  goal : ∀ fact ∈ goalOf blocks, fact.Fits (sizesOf blocks)
  mutexes : ∀ facts ∈ mutexesOf blocks, ∀ fact ∈ facts, fact.Fits (sizesOf blocks)
  operators : ∀ op ∈ operatorsOf blocks, op.Fits (sizesOf blocks)

/-- The task of the blocks with the given initial values. -/
def described (blocks : List Block) (values : List Nat) : Task :=
  Task.ofActions (variablesOf blocks) (State.ofValues values)
    (factState (sizesOf blocks) (goalOf blocks))
    ((mutexesOf blocks).map (factState (sizesOf blocks)))
    ((operatorsOf blocks).map (Operator.described (sizesOf blocks)))

/-- The text is a task file, and `t` is the task in it. -/
def Describes (text : String) (t : Task) : Prop :=
  ∃ blocks values, Splits (fileLines text) blocks ∧ Fits blocks values ∧ t = described blocks values

end StrongCyclic.Sas
