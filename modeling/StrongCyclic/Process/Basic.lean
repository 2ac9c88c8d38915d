import StrongCyclic.Disk.FileTree
import StrongCyclic.Number.Duration

/-!
Programs that are run: a program is started by its name with arguments in a directory, may change
files, prints to two streams and ends by itself, by a signal or because its time is over.
-/

namespace StrongCyclic

/-- How a program is started. -/
structure ProcessCall where
  executable : String
  args : List String
  directory : Path
deriving DecidableEq, Repr, Inhabited

/-- How a program ended. -/
inductive Ending
  | exited (status : Nat)
  | killed (signal : Nat)
  /-- The time was over. -/
  | stopped
deriving DecidableEq, Repr, Inhabited

/-- A program that has been run. -/
structure ProcessRun where
  ending : Ending
  stdout : String
  stderr : String
  files : FileTree
  elapsed : Duration
deriving DecidableEq, Repr, Inhabited

/-- Runs programs within a budget of time; a program that cannot be started is a fault. -/
abbrev ProcessRunner := ProcessCall → Option Duration → FileTree → Except FileFault ProcessRun

/-- The names of signals by their numbers. -/
def signalNames : List (Nat × String) :=
  [(1, "HUP"), (2, "INT"), (3, "QUIT"), (4, "ILL"), (5, "TRAP"), (6, "ABRT"), (7, "BUS"),
    (8, "FPE"),
    (9, "KILL"), (10, "USR1"), (11, "SEGV"), (12, "USR2"), (13, "PIPE"), (14, "ALRM"), (15, "TERM")]

/-- The number of a signal with a name. -/
def signalNumber? (name : String) : Option Nat :=
  (signalNames.find? (·.2 = name)).map Prod.fst

/-- The wording of an ending. -/
def Ending.text : Ending → String
  | exited status => "exit status: " ++ toString status
  | killed signal =>
    "signal: " ++ toString signal ++
      match signalNames.lookup signal with
      | some name => " (SIG" ++ name ++ ")"
      | none => ""
  | stopped => "stopped"

end StrongCyclic
