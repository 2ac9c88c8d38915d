import StrongCyclic.Planning.State
import StrongCyclic.Text.Numeral

/-!
Grounded actions. The header of an operator is a name with arguments; a name that ends in the mark
of a determinized outcome, such as `move_DETDUP_1`, is one outcome of a non-deterministic operator.
An action has one precondition and one effect per outcome, each with its add and delete list.
-/

namespace StrongCyclic

/-- The name and the arguments in brackets: `move(l1,l2)`. -/
def actionKey (name : String) (arguments : List String) : String :=
  name ++ "(" ++ ",".intercalate arguments ++ ")"

/-- The header of an operator, taken apart. -/
structure Header where
  /-- The first word of the header. -/
  name : String
  /-- The name of the operator that the outcome belongs to. -/
  stem : String
  /-- The number of the outcome, if the name carries one. -/
  outcome : Option Nat
  arguments : List String
deriving DecidableEq, Repr, Inhabited

namespace Header

/-- The mark between the name of an operator and the number of one of its outcomes. -/
def outcomeMark : List Char := ['_', 'D', 'E', 'T', 'D', 'U', 'P', '_']

/-- What stands before and after the first outcome mark, in letters of either case. -/
def cutOutcome? (name : List Char) : Option (List Char × List Char) :=
  (Text.cutChars? outcomeMark (name.map Char.toUpper)).map fun (stem, _) =>
    (name.take stem.length, name.drop (stem.length + outcomeMark.length))

/-- The header whose first word is `name`. -/
def ofWords (name : String) (arguments : List String) : Header :=
  match cutOutcome? name.toList with
  | some (stem, number) => ⟨name, String.ofList stem, Text.naturalOf? number, arguments⟩
  | none => ⟨name, name, none, arguments⟩

/-- Reads a header line; a blank line is no header. -/
def parse? (line : String) : Option Header :=
  match Text.words line with
  | [] => none
  | name :: arguments => some (ofWords name arguments)

end Header

/-- The tag of the outcome with an index: `e1`, `e2`, and so on. -/
def outcomeTag (index : Nat) : String :=
  "e" ++ toString (index + 1)

/-- The index of the outcome that a tag stands for; there is no outcome `e0`. -/
def outcomeIndex? (tag : String) : Option Nat :=
  match (Text.afterPrefix? "e" tag).bind Text.natural? with
  | some (index + 1) => some index
  | _ => none

/-- One change of an operator: the variable goes from `prev`, if that is given, to `next`. -/
structure ValueChange where
  var : Nat
  prev : Option Nat
  next : Nat
deriving DecidableEq, Repr, Inhabited

/-- The add list of an effect and the values that it deletes, listed by variable. -/
structure Strips where
  add : State
  delete : List (List Nat)
deriving DecidableEq, Repr, Inhabited

namespace Strips

/-- The values that setting a variable to `value` deletes: its value in the precondition if that has
one, and else all other values of its domain. -/
def deletedBy (old : Option Nat) (domainSize value : Nat) : List Nat :=
  match old with
  | some old => [old]
  | none => (List.range domainSize).filter (· ≠ value)

/-- The add and delete list of an effect under a precondition. -/
def derive (precondition effect : State) (domainSizes : List Nat) : Strips where
  add := effect
  delete := effect.slots.mapIdx fun var slot =>
    match slot with
    | some value => deletedBy (precondition.value? var) (domainSizes.getD var 0) value
    | none => []

/-- The deleted variable-value pairs, in the order of the variables. -/
def deleted (s : Strips) : List (Nat × Nat) :=
  (s.delete.mapIdx fun var values => values.map fun value => (var, value)).flatten

end Strips

/-- A grounded action. -/
structure Action where
  header : Header
  precondition : State
  effects : List State
  strips : List Strips
  cost : Nat
deriving DecidableEq, Repr, Inhabited

namespace Action

/-- The precondition with the previous values of all changes that have one. -/
def liftPrevious (precondition : State) (changes : List ValueChange) : State :=
  changes.foldl (fun s change => if change.prev.isSome then s.set change.var change.prev else s)
    precondition

/-- The effect of a list of changes, the later change of a variable winning. -/
def effectOf (size : Nat) (changes : List ValueChange) : State :=
  (State.undefined size).setAll (changes.map fun change => (change.var, change.next))

/-- The action with one effect that an operator stands for. -/
def ofChanges (header : Header) (precondition : State) (changes : List ValueChange) (cost : Nat)
    (domainSizes : List Nat) : Action :=
  let lifted := liftPrevious precondition changes
  let effect := effectOf precondition.size changes
  { header, precondition := lifted, effects := [effect],
    strips := [Strips.derive lifted effect domainSizes], cost }

/-- The non-deterministic action whose outcomes are those of the given actions; all but the outcomes
comes from the first of them. -/
def merge? : List Action → Option Action
  | [] => none
  | first :: rest =>
    let stem := first.header.stem
    some
      { header := ⟨stem, stem, none, first.header.arguments⟩
        precondition := first.precondition
        effects := (first :: rest).flatMap effects
        strips := (first :: rest).flatMap strips
        cost := first.cost }

/-- The key of one outcome, such as `move_DETDUP_1(l1,l2)`. -/
def key (a : Action) : String :=
  actionKey a.header.name a.header.arguments

/-- The key of the operator, such as `move(l1,l2)`. -/
def groupKey (a : Action) : String :=
  actionKey a.header.stem a.header.arguments

/-- The place of the action among the outcomes of its operator; no number counts as zero. -/
def outcomeRank (a : Action) : Nat :=
  a.header.outcome.getD 0

/-- Whether the action has more than one effect. -/
def isNondeterministic (a : Action) : Bool :=
  1 < a.effects.length

end Action

end StrongCyclic
