import StrongCyclic.Number.Word
import StrongCyclic.Text.Blank

/-!
What can be wrong with a task file, and where. Every fault belongs to one line. A file that announces
more entries than a list can have is not faulted: the program ends there.
-/

namespace StrongCyclic.Sas

/-- Why a task file is refused. -/
inductive Fault
  | endOfInput (expected : String)
  | notAnInteger (text : String)
  | negative (value : Int)
  | tooFewIntegers (expected : Nat) (what : String) (found : Nat)
  | wrongTag (expected found : String)
  | emptyOperatorName
  | conditionalEffect
  | invalidCost (value : Int)
  | missingState
  | stateLength (values vars : Nat)
  | unknownVariable (var vars : Nat)
  | valueOutsideDomain (value var domainSize : Nat)
  | invalidPrevious (value : Int)
deriving DecidableEq, Repr, Inhabited

/-- The wording of a fault. -/
def Fault.message : Fault → String
  | .endOfInput expected => "unexpected end of input, expected " ++ expected
  | .notAnInteger text => "expected integer, found `" ++ text ++ "`"
  | .negative value => "expected non-negative integer, found " ++ toString value
  | .tooFewIntegers expected what found =>
    "expected " ++ toString expected ++ " integers for " ++ what ++ ", found " ++ toString found
  | .wrongTag expected found => "expected `" ++ expected ++ "`, found `" ++ found ++ "`"
  | .emptyOperatorName => "empty operator name"
  | .conditionalEffect => "conditional effects are not supported"
  | .invalidCost value => "invalid cost " ++ toString value
  | .missingState => "missing begin_state block"
  | .stateLength values vars =>
    "initial state has " ++ toString values ++ " values but there are " ++ toString vars ++
      " variables"
  | .unknownVariable var vars =>
    "variable " ++ toString var ++ " out of range (" ++ toString vars ++ " variables)"
  | .valueOutsideDomain value var domainSize =>
    "value " ++ toString value ++ " out of range for variable " ++ toString var ++
      " (domain size " ++ toString domainSize ++ ")"
  | .invalidPrevious value => "invalid previous value " ++ toString value

/-- A fault of a line. -/
abbrev LineFault := AtLine Fault

/-- Why a file gives no task. -/
inductive Stop
  | fault (fault : LineFault)
  | crash (crash : Crash)
deriving DecidableEq, Repr, Inhabited

instance : MonadLift (Except LineFault) (Except Stop) where
  monadLift := Except.mapError .fault

instance : MonadLift (Except Crash) (Except Stop) where
  monadLift := Except.mapError .crash

end StrongCyclic.Sas
