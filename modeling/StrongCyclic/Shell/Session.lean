import StrongCyclic.Disk.FileTree
import StrongCyclic.Number.Duration
import StrongCyclic.Shell.Syntax
import StrongCyclic.Text.Utf8

/-!
The state of a script that runs: its parameters, the files, its streams and the clock. What is
printed is kept in pieces, the last one first. A script goes on until it exits, is killed or runs
out of time; inside of it a loop or a function can be left.
-/

namespace StrongCyclic.Shell

/-- Where the output of a stream goes. -/
inductive Sink
  | out
  | err
  /-- The output that is being collected for a word or for the next command of a pipeline. -/
  | collected
  | nothing
  | file (place : Place)
deriving DecidableEq, Repr, Inhabited

/-- The state of a script. -/
structure Session where
  name : String
  arguments : List String
  bindings : List (String × String) := []
  functions : List (String × Command) := []
  options : List Char := []
  /-- What is run at the end, which counts as signal zero, and when a signal comes. -/
  traps : List (Nat × String) := []
  files : FileTree
  status : Nat := 0
  line : Nat := 0
  /-- Whether a failure is the answer to a question and does not end the script. -/
  isTested : Bool := false
  input : List UInt8 := []
  sinks : List (Nat × Sink) := [(1, .out), (2, .err)]
  out : List (List UInt8) := []
  err : List (List UInt8) := []
  collected : List (List UInt8) := []
  /-- What commands beside the script print later, and when the last of them ends. -/
  lateOut : List (List UInt8) := []
  lateErr : List (List UInt8) := []
  lateEnd : Duration := ⟨0⟩
  clock : Duration := ⟨0⟩
  limit : Option Duration := none
deriving Inhabited

/-- Why the commands that follow are not run. -/
inductive Stop
  | exit (status : Nat)
  | killed (signal : Nat)
  | timeOver
  /-- Some loops are left. -/
  | leave (loops : Nat)
  /-- Some loops are left, and the one around them goes on. -/
  | again (loops : Nat)
  /-- A function is left. -/
  | back
deriving DecidableEq, Repr, Inhabited

/-- A part of the run of a script. -/
abbrev Script (α : Type) := ExceptT Stop (StateM Session) α

namespace Session

/-- The bytes of pieces. -/
def joined (pieces : List (List UInt8)) : List UInt8 :=
  pieces.reverse.flatten

/-- The number by which a script names itself. -/
def ownNumber : String := "4242"

/-- The value of a parameter, if it has one. -/
def parameter? (s : Session) (name : String) : Option String :=
  match name with
  | "?" => some (toString s.status)
  | "#" => some (toString s.arguments.length)
  | "$" => some ownNumber
  | "!" => none
  | "-" => some (String.ofList s.options)
  | "@" | "*" => if s.arguments.isEmpty then none else some (" ".intercalate s.arguments)
  | "0" => some s.name
  | _ =>
    match name.toNat? with
    | some n => s.arguments[n - 1]?
    | none => s.bindings.lookup name

/-- Gives a variable a value. -/
def assign (s : Session) (name value : String) : Session :=
  { s with bindings := (name, value) :: s.bindings.filter (·.1 ≠ name) }

/-- Takes the value from a variable. -/
def unassign (s : Session) (name : String) : Session :=
  { s with bindings := s.bindings.filter (·.1 ≠ name) }

/-- Whether an option is on. -/
def has (s : Session) (option : Char) : Bool :=
  s.options.contains option

/-- Where a stream leads; a stream that is not open leads nowhere. -/
def sink (s : Session) (stream : Nat) : Sink :=
  (s.sinks.lookup stream).getD .nothing

/-- Connects a stream. -/
def connect (s : Session) (stream : Nat) (sink : Sink) : Session :=
  { s with sinks := (stream, sink) :: s.sinks.filter (·.1 ≠ stream) }

/-- Writes bytes at the end of the file at a place. -/
def appendTo (files : FileTree) (place : Place) (bytes : List UInt8) : FileTree :=
  match files.entry? place with
  | some (.file text) => files.put place (.file (text ++ Text.ofBytes bytes))
  | _ => files

/-- Writes bytes to a stream. -/
def write (s : Session) (stream : Nat) (bytes : List UInt8) : Session :=
  if bytes.isEmpty then s
  else match s.sink stream with
    | .out => { s with out := bytes :: s.out }
    | .err => { s with err := bytes :: s.err }
    | .collected => { s with collected := bytes :: s.collected }
    | .nothing => s
    | .file place => { s with files := appendTo s.files place bytes }

/-- The state behind commands that had a state of their own: what they did to the files and what
they printed stays, and so do their status and the time. -/
def after (s inner : Session) : Session :=
  { s with
    files := { inner.files with workingDirectory := s.files.workingDirectory }
    status := inner.status, input := inner.input, out := inner.out, err := inner.err
    collected := inner.collected, clock := inner.clock
    lateOut := inner.lateOut, lateErr := inner.lateErr, lateEnd := inner.lateEnd }

/-- Prints what has been printed beside the script. -/
def settle (s : Session) : Session :=
  { s with out := s.lateOut ++ s.out, err := s.lateErr ++ s.err, lateOut := [], lateErr := [] }

end Session

namespace Script

variable {α : Type}

/-- Writes a line to the stream of messages. -/
def complain (text : String) : Script Unit :=
  modify (·.write 2 (Text.bytesOf (text ++ "\n")))

/-- Writes a message with the name of the script and the current line. -/
def complainAt (text : String) : Script Unit := do
  let s ← get
  complain (s.name ++ ": " ++ toString s.line ++ ": " ++ text)

/-- Sets the status of the last command. -/
def setStatus (status : Nat) : Script Unit :=
  modify ({ · with status })

/-- Ends the script with a message. -/
def abort (text : String) : Script α := do
  complainAt text
  setStatus 2
  throw (.exit 2)

/-- Lets time pass, up to the limit. -/
def pass (time : Duration) : Script Unit := do
  let s ← get
  let clock : Duration := ⟨s.clock.nanos + time.nanos⟩
  match s.limit with
  | some limit =>
    if limit.nanos ≤ clock.nanos then
      set { s with clock := limit }
      throw .timeOver
    else set { s with clock }
  | none => set { s with clock }

/-- Waits for the commands beside the script. -/
def await : Script Unit := do
  let s ← get
  pass ⟨s.lateEnd.nanos - s.clock.nanos⟩
  modify Session.settle

/-- Runs commands with a state of their own, which can be left but not ended from inside. -/
def isolated (body : Script Unit) : Script Unit := ExceptT.mk fun s =>
  match body { s with traps := s.traps.filter (·.2 = "") } with
  | (.error (.killed signal), inner) => (.error (.killed signal), s.after inner)
  | (.error .timeOver, inner) => (.error .timeOver, s.after inner)
  | (.error (.exit status), inner) => (.ok (), { s.after inner with status })
  | (_, inner) => (.ok (), s.after inner)

/-- Runs a part and restores the streams behind it, however it ends; the input is restored if the
part has an input of its own. -/
def keepingStreams (hasInput : Bool) (body : Script α) : Script α := ExceptT.mk fun s =>
  let (result, inner) := body s
  (result, { inner with sinks := s.sinks, input := if hasInput then s.input else inner.input })

/-- Runs a part whose failures do not end the script. -/
def tested (body : Script α) : Script α := ExceptT.mk fun s =>
  let (result, inner) := body { s with isTested := true }
  (result, { inner with isTested := s.isTested })

/-- Runs a part and shows how it ends. -/
def attempt (body : Script α) : Script (Except Stop α) := ExceptT.mk fun s =>
  let (result, inner) := body s
  (.ok result, inner)

/-- Runs a part that can be left as a whole. -/
def leaving (body : Script Unit) : Script Unit := ExceptT.mk fun s =>
  match body s with
  | (.error .back, inner) => (.ok (), inner)
  | result => result

/-- Runs commands and takes what they print. -/
def collecting (body : Script Unit) : Script (List UInt8) := do
  let before := (← get).collected
  modify fun s => { s with collected := [] }
  isolated do
    modify (·.connect 1 .collected)
    body
  let s ← get
  set { s with collected := before }
  return Session.joined s.collected

/-- Runs commands beside the script. What they print comes later if they take time. -/
def aside (body : Script Unit) : Script Unit := ExceptT.mk fun s =>
  let (_, inner) := body { s with limit := none, input := [], traps := [], out := [], err := [] }
  let s' := { s.after inner with clock := s.clock, input := s.input, status := 0 }
  if inner.clock = s.clock then
    (.ok (), { s' with out := inner.out ++ s.out, err := inner.err ++ s.err })
  else
    (.ok (), { s' with
      out := s.out, err := s.err, lateOut := inner.out ++ inner.lateOut,
      lateErr := inner.err ++ inner.lateErr
      lateEnd := ⟨max inner.clock.nanos inner.lateEnd.nanos⟩ })

end Script

end StrongCyclic.Shell
