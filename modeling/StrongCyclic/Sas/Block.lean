import StrongCyclic.Planning.Action
import StrongCyclic.Sas.Fault

/-!
The blocks of a task file. A file is read as its trimmed lines without the blank ones; a begin tag
opens a block, and lines between blocks are skipped. Where a line announces a number of entries, room
for all of them is made before the first one is read. Indices are only read here: whether they fit
the variables is decided when the task is built from the blocks.
-/

namespace StrongCyclic.Sas

/-- A trimmed line with its number, counted from one. -/
structure Line where
  number : Nat
  text : String
deriving DecidableEq, Repr, Inhabited

/-- The lines that are not blank. -/
def fileLines (text : String) : List Line :=
  let numbered : List Line := (Text.lines text).mapIdx fun i line => ⟨i + 1, Text.trim line⟩
  numbered.filter (·.text ≠ "")

/-- A variable-value pair and the line it was read from. -/
structure Fact where
  line : Nat
  var : Nat
  value : Nat
deriving DecidableEq, Repr, Inhabited

/-- A change of an operator and the line it was read from; the previous value is not yet checked. -/
structure Change where
  line : Nat
  var : Nat
  prev : Int
  next : Nat
deriving DecidableEq, Repr, Inhabited

/-- An operator as it stands in the file. -/
structure Operator where
  header : Header
  prevail : List Fact
  changes : List Change
  cost : Nat
deriving DecidableEq, Repr, Inhabited

/-- One block of a task file. -/
inductive Block
  | variable (v : Variable)
  | operator (op : Operator)
  /-- The values of an initial state and the line of the begin tag. -/
  | state (line : Nat) (values : List Nat)
  | goal (facts : List Fact)
  | mutex (facts : List Fact)
deriving DecidableEq, Repr, Inhabited

/-- Where the reading stands: the number of the line read last and the lines that follow. -/
structure Cursor where
  last : Nat
  rest : List Line
deriving DecidableEq, Repr, Inhabited

/-- A reader takes lines from the cursor or reports a fault. -/
abbrev Reader (α : Type) := Cursor → Except LineFault (α × Cursor)

/-- A reader that also makes room for what it reads. -/
abbrev BlockReader (α : Type) := Cursor → Except Stop (α × Cursor)

namespace Reader

/-- The bytes that a label takes in a list: three words. -/
def labelBytes : Nat := 24

/-- The bytes that a fact takes in a list: three words. -/
def factBytes : Nat := 24

/-- The bytes that a change takes in a list: four words. -/
def changeBytes : Nat := 32

/-- Reports a fault in a line. -/
def fail {α : Type} (line : Nat) (fault : Fault) : Except LineFault α :=
  .error ⟨line, fault⟩

/-- Takes the next line, which is there to hold `what`. -/
def line (what : String) : Reader Line
  | ⟨last, []⟩ => fail last (.endOfInput what)
  | ⟨_, l :: rest⟩ => .ok (l, ⟨l.number, rest⟩)

/-- The integer that a text stands for. -/
def integerIn (line : Nat) (text : String) : Except LineFault Int :=
  match Text.integer? text with
  | some value => .ok value
  | none => fail line (.notAnInteger text)

/-- The integer as an index. -/
def indexIn (line : Nat) (value : Int) : Except LineFault Nat :=
  if value < 0 then fail line (.negative value) else .ok value.toNat

/-- A line with one integer. -/
def integer (what : String) : Reader Int := fun c => do
  let (l, c) ← line what c
  let value ← integerIn l.number l.text
  return (value, c)

/-- A line with one index or count. -/
def count (what : String) : Reader Nat := fun c => do
  let (l, c) ← line what c
  let value ← integerIn l.number l.text
  let n ← indexIn l.number value
  return (n, c)

/-- A line of at least `least` integers between blanks. -/
def integers (what : String) (least : Nat) : Reader (Nat × List Int) := fun c => do
  let (l, c) ← line what c
  let values ← (Text.words l.text).mapM (integerIn l.number)
  if values.length < least then fail l.number (.tooFewIntegers least what values.length)
  else return ((l.number, values), c)

/-- The line that closes a block. -/
def endTag (tag : String) : Reader Unit := fun c => do
  let (l, c) ← line tag c
  if l.text = tag then return ((), c) else fail l.number (.wrongTag tag l.text)

/-- Reads the same thing a number of times. -/
def times {α : Type} (n : Nat) (read : Reader α) : Reader (List α) := fun c =>
  match n with
  | 0 => .ok ([], c)
  | n + 1 => do
    let (a, c) ← read c
    let (as, c) ← times n read c
    return (a :: as, c)

/-- A line that starts with a variable and a value. -/
def fact (what : String) : Reader Fact := fun c => do
  let ((number, values), c) ← integers what 2 c
  let var ← indexIn number (values.getD 0 0)
  let value ← indexIn number (values.getD 1 0)
  return (⟨number, var, value⟩, c)

/-- A line that starts with the number of conditions, which is zero, a variable, its previous and
its next value. -/
def change : Reader Change := fun c => do
  let ((number, values), c) ← integers "effect" 4 c
  if values.getD 0 0 ≠ 0 then fail number .conditionalEffect
  else
    let var ← indexIn number (values.getD 1 0)
    let next ← indexIn number (values.getD 3 0)
    return (⟨number, var, values.getD 2 0, next⟩, c)

/-- A line with the cost of an operator, a number of 32 bits. -/
def cost : Reader Nat := fun c => do
  let (value, c) ← integer "operator cost" c
  if value < 0 ∨ 4294967296 ≤ value then fail c.last (.invalidCost value)
  else return (value.toNat, c)

/-- As many entries as the next line announces, with room for `bytes` bytes for each of them. -/
def counted {α : Type} (what : String) (bytes : Nat) (read : Reader α) : BlockReader (List α) :=
  fun c => do
    let (n, c) ← count what c
    Word.reserve bytes n
    times n read c

/-- The rest of a variable block. -/
def variableBlock : BlockReader Variable := fun c => do
  let (name, c) ← line "variable name" c
  let (_, c) ← integer "axiom layer" c
  let (labels, c) ← counted "domain size" labelBytes (line "domain value") c
  let (_, c) ← endTag "end_variable" c
  return (⟨name.text, labels.map (·.text)⟩, c)

/-- The rest of an operator block. -/
def operatorBlock : BlockReader Operator := fun c => do
  let (l, c) ← line "operator name" c
  match Header.parse? l.text with
  | none => fail l.number .emptyOperatorName
  | some header =>
    let (prevail, c) ← counted "precondition count" factBytes (fact "precondition") c
    let (changes, c) ← counted "effect count" changeBytes change c
    let (cost, c) ← cost c
    let (_, c) ← endTag "end_operator" c
    return (⟨header, prevail, changes, cost⟩, c)

/-- The values of a state block up to its end tag, among the given lines. -/
def stateValues (last : Nat) : List Line → Except LineFault (List Nat × Cursor)
  | [] => fail last (.endOfInput "initial state value or end_state")
  | l :: rest =>
    if l.text = "end_state" then .ok ([], ⟨l.number, rest⟩)
    else do
      let value ← integerIn l.number l.text
      let value ← indexIn l.number value
      let (values, c) ← stateValues l.number rest
      return (value :: values, c)

/-- The rest of a state block. -/
def stateBlock : Reader (List Nat) := fun c =>
  stateValues c.last c.rest

/-- The rest of a block that counts its facts. -/
def factsBlock (tag : String) : BlockReader (List Fact) := fun c => do
  let (facts, c) ← counted "pair count" factBytes (fact "variable/value pair") c
  let (_, c) ← endTag tag c
  return (facts, c)

/-- What a line opens: a block, or nothing if it is no begin tag. -/
def block? (l : Line) : BlockReader (Option Block) := fun c =>
  if l.text = "begin_variable" then do
    let (v, c) ← variableBlock c
    return (some (.variable v), c)
  else if l.text = "begin_operator" then do
    let (op, c) ← operatorBlock c
    return (some (.operator op), c)
  else if l.text = "begin_state" then do
    let (values, c) ← stateBlock c
    return (some (.state l.number values), c)
  else if l.text = "begin_goal" then do
    let (facts, c) ← factsBlock "end_goal" c
    return (some (.goal facts), c)
  else if l.text = "begin_mutex_group" then do
    let (facts, c) ← factsBlock "end_mutex_group" c
    return (some (.mutex facts), c)
  else return (none, c)

/-- The blocks of the lines that follow. Each round takes a line, so as many rounds as there are
lines are enough. -/
def blocksWithin : Nat → BlockReader (List Block)
  | 0, c => .ok ([], c)
  | rounds + 1, c =>
    match c.rest with
    | [] => .ok ([], c)
    | l :: rest => do
      let (block, c) ← block? l ⟨l.number, rest⟩
      let (blocks, c) ← blocksWithin rounds c
      return (block.toList ++ blocks, c)

/-- All blocks of a file. -/
def blocks : BlockReader (List Block) := fun c =>
  blocksWithin c.rest.length c

end Reader

end StrongCyclic.Sas
