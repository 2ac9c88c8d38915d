/-!
Ground terms of an answer set and how they are written. A tuple is a function term whose name is
empty.
-/

namespace StrongCyclic

/-- A ground term. -/
inductive Term
  | int (value : Int)
  /-- A quoted string, kept without the quotes. -/
  | str (text : String)
  /-- A bare constant. -/
  | sym (name : String)
  | func (name : String) (args : List Term)
deriving Repr, Inhabited

namespace Term

mutual

/-- Equality of terms is decided part by part. -/
def decideEq : (t u : Term) → Decidable (t = u)
  | .int a, .int b => decidable_of_decidable_of_iff (p := a = b) (by simp)
  | .str a, .str b => decidable_of_decidable_of_iff (p := a = b) (by simp)
  | .sym a, .sym b => decidable_of_decidable_of_iff (p := a = b) (by simp)
  | .func a ts, .func b us =>
    have := decideEqList ts us
    decidable_of_decidable_of_iff (p := a = b ∧ ts = us) (by simp)
  | .int _, .str _ | .int _, .sym _ | .int _, .func _ _
  | .str _, .int _ | .str _, .sym _ | .str _, .func _ _
  | .sym _, .int _ | .sym _, .str _ | .sym _, .func _ _
  | .func _ _, .int _ | .func _ _, .str _ | .func _ _, .sym _ => .isFalse nofun

/-- Equality of lists of terms. -/
def decideEqList : (ts us : List Term) → Decidable (ts = us)
  | [], [] => .isTrue rfl
  | t :: ts, u :: us =>
    have := decideEq t u
    have := decideEqList ts us
    decidable_of_decidable_of_iff (p := t = u ∧ ts = us) (by simp)
  | [], _ :: _ | _ :: _, [] => .isFalse nofun

end

instance : DecidableEq Term := decideEq

mutual

/-- The written form of a term. -/
def text : Term → String
  | .int value => toString value
  | .str text => "\"" ++ text ++ "\""
  | .sym name => name
  | .func name args => name ++ "(" ++ textList args ++ ")"

/-- The written forms of terms between commas. -/
def textList : List Term → String
  | [] => ""
  | [t] => t.text
  | t :: ts => t.text ++ "," ++ textList ts

end

/-- The value of an integer term. -/
def int? : Term → Option Int
  | .int value => some value
  | _ => none

/-- The text of a quoted string or a bare constant. -/
def text? : Term → Option String
  | .str text => some text
  | .sym name => some name
  | _ => none

end Term

/-- An atom of an answer set. -/
structure Atom where
  predicate : String
  args : List Term
deriving DecidableEq, Repr, Inhabited

namespace Atom

/-- The written form of an atom; without arguments it has no brackets. -/
def text (a : Atom) : String :=
  if a.args.isEmpty then a.predicate else a.predicate ++ "(" ++ Term.textList a.args ++ ")"

/-- Whether the atom has a predicate of a given arity. -/
def is (a : Atom) (predicate : String) (arity : Nat) : Bool :=
  a.predicate = predicate && a.args.length = arity

/-- An argument as an integer. -/
def int? (a : Atom) (i : Nat) : Option Int :=
  a.args[i]?.bind Term.int?

/-- An argument as an integer that is not negative. -/
def index? (a : Atom) (i : Nat) : Option Nat :=
  (a.int? i).bind fun value => if 0 ≤ value then some value.toNat else none

/-- An argument as a text. -/
def text? (a : Atom) (i : Nat) : Option String :=
  a.args[i]?.bind Term.text?

end Atom

end StrongCyclic
