import StrongCyclic.Answer.Output
import StrongCyclic.Controller.Basic

/-!
The controller of an answer. The atoms `holds/3`, `policy/2` and `transition/3` are its entries, all
others are passed over; an entry whose arguments have the wrong form is a fault.
-/

namespace StrongCyclic.Controller

/-- Takes over a `holds(state, variable, value)` atom. -/
def addHolds (c : Controller) (a : Atom) : Except LineFault Controller :=
  match a.index? 0, a.index? 1, a.index? 2 with
  | some id, some var, some value =>
    match c.assign id var value with
    | some c => .ok c
    | none => fail 0 (.unknownVariable id var c.numVariables)
  | _, _, _ => fail 0 (.malformedAtom a)

/-- Takes over a `policy(state, action)` atom. -/
def addPolicy (c : Controller) (a : Atom) : Except LineFault Controller :=
  match a.index? 0, a.text? 1 with
  | some id, some action => .ok (c.setPolicy id action)
  | _, _ => fail 0 (.malformedAtom a)

/-- Takes over a `transition(state, tag, state)` atom. -/
def addTransitionAtom (c : Controller) (a : Atom) : Except LineFault Controller :=
  match a.index? 0, a.text? 1, a.index? 2 with
  | some source, some tag, some target => .ok (c.addTransition ⟨source, tag, target⟩)
  | _, _, _ => fail 0 (.malformedAtom a)

/-- Takes over an atom. -/
def addAtom (c : Controller) (a : Atom) : Except LineFault Controller :=
  if a.is "holds" 3 then c.addHolds a
  else if a.is "policy" 2 then c.addPolicy a
  else if a.is "transition" 3 then c.addTransitionAtom a
  else .ok c

/-- The controller that an answer describes. -/
def ofAnswer (answer : Answer) (numVariables : Nat) : Except LineFault Controller := do
  let c ← answer.atoms.foldlM addAtom (empty answer.number numVariables)
  c.finish

end StrongCyclic.Controller
