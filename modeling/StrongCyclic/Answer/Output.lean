import StrongCyclic.Answer.Reader
import StrongCyclic.Text.Search

/-!
The printed output of a solver. A line that starts with `Answer:` announces the number of an answer,
and the line after it lists the atoms; these lines are taken in pairs, so that nothing in a list of
atoms counts as a status. The status is that of the first line with a status word.
-/

namespace StrongCyclic

/-- What the solver says about the program. -/
inductive SolverStatus
  | satisfiable
  | unsatisfiable
  | unknown
deriving DecidableEq, Repr, Inhabited

/-- A numbered answer set. -/
structure Answer where
  number : Nat
  atoms : List Atom
deriving DecidableEq, Repr, Inhabited

namespace Answer

/-- The atoms of a predicate and arity, in the order of the answer. -/
def atomsOf (a : Answer) (predicate : String) (arity : Nat) : List Atom :=
  a.atoms.filter (·.is predicate arity)

/-- Why an answer cannot be read. -/
inductive Fault
  | invalidNumber (text : String)
  | malformedAtom (text : String)
deriving DecidableEq, Repr, Inhabited

/-- The wording of a fault. -/
def Fault.message : Fault → String
  | .invalidNumber text => "invalid answer number `" ++ text ++ "`"
  | .malformedAtom text => "malformed atom `" ++ text ++ "`"

/-- A fault of a line. -/
abbrev LineFault := AtLine Fault

/-- The pieces between the blanks that stand outside of quotes; every quote opens or closes. -/
def splitUnquoted : Bool → List Char → List (List Char)
  | _, [] => [[]]
  | quoted, c :: cs =>
    if Text.isBlank c && !quoted then [] :: splitUnquoted quoted cs
    else match splitUnquoted (if c = '"' then !quoted else quoted) cs with
      | [] => [[c]]
      | piece :: pieces => (c :: piece) :: pieces

/-- The texts of the atoms in a line. -/
def splitAtoms (line : String) : List String :=
  ((splitUnquoted false line.toList).filter (· ≠ [])).map String.ofList

/-- The atoms in a line. -/
def readAtoms (number : Nat) (line : String) : Except LineFault (List Atom) :=
  (splitAtoms line).mapM fun text =>
    match Atom.parse? text with
    | some a => .ok a
    | none => .error ⟨number, .malformedAtom text⟩

/-- The number after `Answer:`. -/
def readNumber (number : Nat) (text : String) : Except LineFault Nat :=
  match Text.natural? (Text.trim text) with
  | some n => .ok n
  | none => .error ⟨number, .invalidNumber (Text.trim text)⟩

end Answer

/-- The mark that is added to an output when the time ran out. -/
def timedOutMark : String := "Timed out with time limit="

/-- The printed output of a solver, taken apart. -/
structure SolverOutput where
  status : SolverStatus
  answers : List Answer
  timedOut : Bool
deriving DecidableEq, Repr, Inhabited

namespace SolverOutput

/-- The status that a line states. -/
def statusOf (line : String) : SolverStatus :=
  if Text.contains "UNSATISFIABLE" line then .unsatisfiable
  else if Text.contains "SATISFIABLE" line || Text.contains "OPTIMUM FOUND" line then .satisfiable
  else .unknown

/-- Takes over the status of a line, unless there already is one, and its time-out mark. -/
def note (out : SolverOutput) (line : String) : SolverOutput :=
  { out with
    status := if out.status = .unknown then statusOf line else out.status
    timedOut := out.timedOut || Text.contains timedOutMark line }

/-- Adds an answer. -/
def push (out : SolverOutput) (answer : Answer) : SolverOutput :=
  { out with answers := out.answers ++ [answer] }

/-- Reads the lines from the one with the given number on. -/
def readFrom (number : Nat) (out : SolverOutput) :
    List String → Except Answer.LineFault SolverOutput
  | [] => .ok out
  | line :: rest =>
    let line := Text.trim line
    match Text.afterPrefix? "Answer:" line with
    | none => readFrom (number + 1) (out.note line) rest
    | some text => do
      let n ← Answer.readNumber number text
      match rest with
      | [] => .ok ((out.note line).push ⟨n, []⟩)
      | atomLine :: rest =>
        let atoms ← Answer.readAtoms (number + 1) atomLine
        readFrom (number + 2) ((out.note line).push ⟨n, atoms⟩) rest

/-- Reads the output of a solver. -/
def parse (text : String) : Except Answer.LineFault SolverOutput :=
  readFrom 1 ⟨.unknown, [], false⟩ (Text.lines text)

/-- Whether the solver found an answer to be there. -/
def isSatisfiable (out : SolverOutput) : Bool :=
  out.status = .satisfiable

/-- The answer that the solver settled on: the last one, which is the best if it optimises. -/
def lastAnswer? (out : SolverOutput) : Option Answer :=
  out.answers.getLast?

end SolverOutput

end StrongCyclic
