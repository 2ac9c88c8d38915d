import StrongCyclic.Answer.Output
import StrongCyclic.Collection.Keyed

/-!
Undo pairs: an action and another one that undoes it. Following the first with the second is
forbidden to a policy, either for the two actions or for all actions of their types.
-/

namespace StrongCyclic

/-- The second action undoes the first. -/
structure UndoPair where
  first : String
  second : String
deriving DecidableEq, Repr, Inhabited

/-- The name of an action without its arguments. -/
def actionType (action : String) : String :=
  Text.trim (Text.before '(' action)

namespace UndoPair

/-- The undo pairs of an answer; atoms that do not name two actions are passed over. -/
def ofAnswer (answer : Answer) : List UndoPair :=
  (answer.atomsOf "undo" 2).filterMap fun a =>
    match a.text? 0, a.text? 1 with
    | some first, some second => some ⟨first, second⟩
    | _, _ => none

/-- The types of the two actions. -/
def types (p : UndoPair) : String × String :=
  (actionType p.first, actionType p.second)

/-- Whether the pair is forbidden through its types. -/
def isLifted (byType : Bool) (p : UndoPair) : Bool :=
  byType && p.types.1 ≠ p.types.2

/-- The constraint on two actions. -/
def groundedConstraint (p : UndoPair) : String :=
  ":- \x7bpolicy(S2, \"" ++ p.second ++ "\"): policy(S1, \"" ++ p.first ++
    "\"), transition(S1,\"e1\", S2)\x7d!=0."

/-- The constraint on all actions of two types. -/
def typeConstraint (types : String × String) : String :=
  ":- \x7bpolicy(S2, A2): policy(S1, A1), actionType(\"" ++ types.1 ++
    "\", A1), actionType(\"" ++ types.2 ++ "\", A2), transition(S1,\"e1\", S2)\x7d!=0."

/-- Keeps the first partner of each type. -/
def firstPartners (pairs : List (String × String)) : List (String × String) :=
  pairs.foldl (fun partners (type, partner) => Keyed.alter type (·.getD partner) partners) []

/-- The constraints of undo pairs: first those on two actions, then those on types. -/
def constraints (byType : Bool) (pairs : List UndoPair) : String :=
  let lifted := (pairs.filter (isLifted byType)).map types
  Text.unlines
    ((pairs.filter (!isLifted byType ·)).map groundedConstraint ++
      (firstPartners lifted).map typeConstraint)

end UndoPair

end StrongCyclic
