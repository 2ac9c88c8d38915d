/-!
The lines of an instance: the facts and rules that describe a planning task to the solver, and how
each of them is written.
-/

namespace StrongCyclic.Encoding

/-- One line of an instance. -/
inductive Line
  | blank
  /-- The variables count from zero up to the given number. -/
  | variableRange (last : Int)
  /-- The values of a variable count from zero up to the given number. -/
  | variableValues (var : Nat) (last : Int)
  | mutexGroup (group : Nat)
  /-- The pair belongs to a mutex group. -/
  | mutex (group var value : Nat)
  | holdsInitially (var value : Nat)
  | failsInitially (var value : Nat)
  | holdsAtGoal (var value : Nat)
  | goal (var value : Nat)
  | actionType (type : String)
  /-- The operator belongs to a type. -/
  | typedAction (type name : String)
  | action (name : String)
  | precondition (name : String) (var value : Nat)
  | numEffects (name : String) (count : Nat)
  | actionEffect (name tag : String)
  | add (name tag : String) (var value : Nat)
  | del (name tag : String) (var value : Nat)
  /-- The outcome leaves the variable as it is. -/
  | notAffects (name tag : String) (var : Nat)
  /-- The first tag comes before the second. -/
  | precedence (first second : String)
  /-- The largest number of outcomes. -/
  | maxOutcomes (count : Nat)
deriving DecidableEq, Repr, Inhabited

namespace Line

/-- A text between quotes. -/
def quoted (s : String) : String :=
  "\"" ++ s ++ "\""

/-- A variable and a value as the last two arguments of a fact. -/
def pairEnd (var value : Nat) : String :=
  ", " ++ toString var ++ ", " ++ toString value ++ ")"

/-- The written form of a line. -/
def text : Line → String
  | .blank => ""
  | .variableRange last => "variable(0.." ++ toString last ++ ")."
  | .variableValues var last =>
    "variableValue(" ++ toString var ++ ", 0.." ++ toString last ++ ")."
  | .mutexGroup group => "mutexGroup(" ++ toString group ++ ")."
  | .mutex group var value => "mutex(" ++ toString group ++ pairEnd var value ++ "."
  | .holdsInitially var value => "holds(X" ++ pairEnd var value ++ ":- initialState(X)."
  | .failsInitially var value => "-holds(X" ++ pairEnd var value ++ ":- initialState(X)."
  | .holdsAtGoal var value => "holds(X" ++ pairEnd var value ++ ":- goalState(X)."
  | .goal var value => "goal(" ++ toString var ++ ", " ++ toString value ++ ")."
  | .actionType type => "actionType(" ++ quoted type ++ ")."
  | .typedAction type name => "actionType(" ++ quoted type ++ ", " ++ quoted name ++ ")."
  | .action name => "action(" ++ quoted name ++ ")."
  | .precondition name var value => "precondition(" ++ quoted name ++ pairEnd var value ++ "."
  | .numEffects name count => "numEffects(" ++ quoted name ++ ", " ++ toString count ++ ")."
  | .actionEffect name tag => "actionEffect(" ++ quoted name ++ ", " ++ quoted tag ++ ")."
  | .add name tag var value =>
    "add(" ++ quoted name ++ ", " ++ quoted tag ++ pairEnd var value ++ "."
  | .del name tag var value =>
    "del(" ++ quoted name ++ ", " ++ quoted tag ++ pairEnd var value ++ "."
  | .notAffects name tag var =>
    "notaffects(" ++ quoted name ++ "," ++ quoted tag ++ ", " ++ toString var ++ ")."
  | .precedence first second => "precedence(" ++ quoted first ++ ", " ++ quoted second ++ ")."
  | .maxOutcomes count => "maxND(" ++ toString count ++ ")."

end Line

end StrongCyclic.Encoding
