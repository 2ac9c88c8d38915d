import StrongCyclic.Run.World

/-!
Calls of a solver. A call names the input programs, further arguments and the directory to run in;
it may have a budget of time. A solver that runs out of time is stopped, and what it has printed
until then is kept.
-/

namespace StrongCyclic

/-- A call of a solver. -/
structure SolverCall where
  inputs : List Path
  args : List String
  directory : Path
deriving DecidableEq, Repr, Inhabited

/-- The words of a call, as one would type them. -/
def SolverCall.commandLine (call : SolverCall) (executable : String) : String :=
  " ".intercalate (executable :: call.inputs.map Path.text ++ call.args)

/-- How a call ended. -/
inductive SolverRun
  | finished (stdout : String)
  | timedOut (stdout : String)
deriving DecidableEq, Repr, Inhabited

namespace SolverRun

/-- What was printed. -/
def stdout : SolverRun → String
  | finished text => text
  | timedOut text => text

/-- Whether the time ran out. -/
def isTimedOut : SolverRun → Bool
  | finished _ => false
  | timedOut _ => true

end SolverRun

/-- A solver answers calls within a budget of time. -/
abbrev Solver (σ : Type) := SolverCall → Option Duration → Job σ Failure SolverRun

namespace Solver

variable {σ : Type}

/-- A call with the budget that it was given. -/
structure LoggedCall where
  call : SolverCall
  budget : Option Duration
deriving DecidableEq, Repr, Inhabited

/-- What a scripted solver does when it is called. -/
inductive Reply
  | run (result : SolverRun)
  | fail (stderr : String)
deriving DecidableEq, Repr, Inhabited

/-- The replies that are left and the calls so far. -/
structure Script where
  replies : List Reply
  calls : List LoggedCall
deriving DecidableEq, Repr, Inhabited

/-- The reply of a script that has come to its end. -/
def lastReply : Reply :=
  .run (.finished "Solving...\nUNSATISFIABLE\n")

/-- Does what a reply says. -/
def obey : Reply → Except Failure SolverRun
  | .run result => .ok result
  | .fail stderr => .error (.solver "scripted" "exit status: 65" stderr)

/-- The solver that gives one reply after the other and keeps a log of its calls. -/
def scripted : Solver Script := fun call budget => do
  let world : World Script ← get
  let script := world.solver
  set { world with
    solver := Script.mk script.replies.tail (script.calls ++ [LoggedCall.mk call budget]) }
  Job.ofExcept (obey (script.replies.head?.getD lastReply))

end Solver

/-- A limit on the time of a run, counted from its start. -/
structure Deadline where
  start : Duration
  limit : Option Duration
deriving DecidableEq, Repr, Inhabited

namespace Deadline

/-- The time that is left. -/
def remaining (d : Deadline) (now : Duration) : Option Duration :=
  d.limit.map fun limit => ⟨limit.nanos - (now.nanos - d.start.nanos)⟩

/-- Whether no time is left. -/
def isExpired (d : Deadline) (now : Duration) : Bool :=
  d.remaining now = some ⟨0⟩

/-- The limit in seconds; no limit is shown as zero. -/
def limitText (d : Deadline) : String :=
  (d.limit.getD ⟨0⟩).seconds.shortestText

end Deadline

end StrongCyclic
