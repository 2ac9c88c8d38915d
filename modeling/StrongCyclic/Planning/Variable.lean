import StrongCyclic.Text.Search

/-!
Finite-domain variables. A value is an index into the domain, and its label is the domain's text in
a readable form.
-/

namespace StrongCyclic

/-- A variable of a planning task with the texts of its values. -/
structure Variable where
  name : String
  domain : List String
deriving DecidableEq, Repr, Inhabited

namespace Variable

/-- The number of values. -/
def domainSize (v : Variable) : Nat :=
  v.domain.length

/-- The text of a value, in which `Atom p` reads `p` and `NegatedAtom p` reads `not p`; a value
outside the domain is shown as an equation. -/
def label (v : Variable) (value : Nat) : String :=
  match v.domain[value]? with
  | some text =>
    Text.trim (Text.replaceAll "Atom " "" (Text.replaceAll "NegatedAtom " "not " text))
  | none => v.name ++ "=" ++ toString value

end Variable

end StrongCyclic
