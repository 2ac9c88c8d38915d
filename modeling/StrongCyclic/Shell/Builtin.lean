import StrongCyclic.Process.Basic
import StrongCyclic.Shell.Condition
import StrongCyclic.Shell.Session
import StrongCyclic.Shell.Utility

/-!
The commands that belong to the shell, as far as no other command has to be run for them, and the
ways in which streams are connected.
-/

namespace StrongCyclic.Shell

open Script

/-! ## Streams -/

/-- The place of a file that is opened for output; the message names why there is none. -/
def openOutput (clear : Bool) (name : String) : Script (Option Sink) := do
  let s ← get
  if name = "/dev/null" then return some .nothing
  else if name = "/dev/stdout" then return some (s.sink 1)
  else if name = "/dev/stderr" then return some (s.sink 2)
  else
    let opened := do
      let files ← if clear then s.files.write ⟨name⟩ "" else s.files.append ⟨name⟩ ""
      return (files, ← files.resolve ⟨name⟩)
    match opened with
    | .ok (files, place) =>
      set { s with files }
      return some (.file place)
    | .error fault =>
      let reason := match fault with
        | .notFound | .notADirectory => "Directory nonexistent"
        | .isADirectory => "Is a directory"
        | _ => "Permission denied"
      complainAt ("cannot create " ++ name ++ ": " ++ reason)
      return none

/-- Connects the input with a file. -/
def openInput (name : String) : Script Bool := do
  let s ← get
  if name = "/dev/null" then
    set { s with input := [] }
    return true
  else match s.files.locate ⟨name⟩ with
    | .ok (_, .file text) =>
      set { s with input := Text.bytesOf text }
      return true
    | .ok (_, .directory) =>
      set { s with input := [] }
      return true
    | .error _ =>
      complainAt ("cannot open " ++ name ++ ": No such file")
      return false

/-- Connects a stream with what another one is connected with. -/
def duplicate (stream : Nat) (word : String) : Script Bool := do
  if word = "-" then
    modify (·.connect stream .nothing)
    return true
  else match word.toNat? with
    | some other =>
      if stream ≠ 0 then modify fun s => s.connect stream (s.sink other)
      return true
    | none => abort ("Bad fd number")

/-! ## Commands of the shell that need nothing else to be run -/

/-- The number that a word stands for, as an argument of a command. -/
def numberOr (default : Nat) (command : String) (words : List String) : Script Nat := do
  match words with
  | [] => return default
  | word :: _ =>
    match word.toNat? with
    | some n => return n
    | none => abort (command ++ ": Illegal number: " ++ word)

/-- The signal that a word names. -/
def signalOf? (word : String) : Option Nat :=
  match word.toNat? with
  | some n => some n
  | none => signalNumber? (if word.startsWith "SIG" then (word.drop 3).toString else word)

/-- Sets what is run when a signal comes. -/
def setTraps (words : List String) : Script Unit := do
  match words with
  | [] => setStatus 0
  | action :: names =>
    let signals := names.filterMap fun name => if name = "EXIT" then some 0 else signalOf? name
    modify fun s =>
      let others := s.traps.filter (!signals.contains ·.1)
      { s with
        traps := if action = "-" then others else signals.map (·, action) ++ others
        status := 0 }

/-- Sends a signal; only the script itself is there to be reached. -/
def sendSignal (signal : Nat) (targets : List String) : Script Unit := do
  if targets.isEmpty then
    complainAt <|
      "kill: Usage: kill [-s sigspec | -signum | -sigspec] [pid | job]... or\n" ++
        "kill -l [exitstatus]"
    setStatus 2
  else if targets.all (· = Session.ownNumber) then
    if signal = 0 then setStatus 0 else throw (.killed signal)
  else
    complainAt "kill: No such process"
    setStatus 1

/-- Sends the signal that options name. -/
def kill (words : List String) : Script Unit := do
  match words with
  | "-s" :: name :: targets =>
    match signalOf? name with
    | some signal => sendSignal signal targets
    | none =>
      complainAt ("kill: invalid signal number or name: " ++ name)
      setStatus 2
  | "--" :: targets => sendSignal 15 targets
  | word :: targets =>
    match word.toList with
    | '-' :: name =>
      match signalOf? (String.ofList name) with
      | some signal => sendSignal signal targets
      | none =>
        complainAt ("kill: Illegal option -" ++ String.ofList (name.take 1))
        setStatus 2
    | _ => sendSignal 15 words
  | [] => sendSignal 15 []

/-- Changes the working directory. -/
def changeDirectory (words : List String) : Script Unit := do
  let s ← get
  match words with
  | [] => setStatus 0
  | name :: _ =>
    match s.files.locate ⟨name⟩ with
    | .ok (place, .directory) =>
      set { s.assign "PWD" (FileTree.pathOf place).text with
        files := { s.files with workingDirectory := place }, status := 0 }
    | _ =>
      complainAt ("cd: can't cd to " ++ name)
      setStatus 2

/-- Takes a line from the input; a backslash takes the next character as it is. -/
def takeLine (raw : Bool) : List UInt8 → List UInt8 × List UInt8 × Bool
  | [] => ([], [], false)
  | 92 :: 10 :: bs =>
    if raw then ([92], bs, true) else takeLine raw bs
  | 92 :: b :: bs =>
    let (line, rest, hasEnd) := takeLine raw bs
    (if raw then 92 :: b :: line else b :: line, rest, hasEnd)
  | b :: bs =>
    if b = 10 then ([], bs, true)
    else
      let (line, rest, hasEnd) := takeLine raw bs
      (b :: line, rest, hasEnd)

/-- Gives names the words of a text; the last one gets the rest. -/
def shareWords (s : Session) : List String → List Char → Session
  | [], _ => s
  | [name], cs => s.assign name (Text.trim (String.ofList cs))
  | name :: names, cs =>
    let cs := cs.dropWhile Text.isBlank
    let word := cs.takeWhile (!Text.isBlank ·)
    shareWords (s.assign name (String.ofList word)) names (cs.drop word.length)

/-- Reads a line into variables. -/
def readVariables (words : List String) : Script Unit := do
  let (raw, names) := match words with
    | "-r" :: names => (true, names)
    | _ => (false, words)
  let s ← get
  let (line, rest, hasEnd) := takeLine raw s.input
  let text := Text.ofBytes line
  let s := { s with input := rest, status := if hasEnd then 0 else 1 }
  set (match s.bindings.lookup "IFS", names with
    | some "", [name] => s.assign name text
    | _, _ => shareWords s names text.toList)

/-- Changes options and arguments. -/
def setOptions : List String → Script Unit
  | [] => setStatus 0
  | "--" :: arguments => modify ({ · with arguments, status := 0 })
  | word :: rest =>
    match word.toList with
    | '-' :: letters => do
      modify fun s => { s with options := s.options ++ letters.filter (!s.options.contains ·) }
      setOptions rest
    | '+' :: letters => do
      modify fun s => { s with options := s.options.filter (!letters.contains ·) }
      setOptions rest
    | _ => modify ({ · with arguments := word :: rest, status := 0 })

/-- Gives variables the values in words of the form `name=value`. -/
def assignWords (words : List String) : Script Unit := do
  for word in words do
    let name := String.ofList (word.toList.takeWhile (· ≠ '='))
    if word.toList.contains '=' then
      modify fun s => s.assign name (String.ofList (word.toList.drop (name.length + 1)))
  setStatus 0

/-- Tests a condition. -/
def testCondition (command : String) (words : List String) : Script Unit := do
  match Condition.holds (← get).files words with
  | .ok answer => setStatus (if answer then 0 else 1)
  | .error fault =>
    complainAt (command ++ ": " ++ fault.message)
    setStatus 2

/-- Prints with a format. -/
def printFormat (words : List String) : Script Unit := do
  match words with
  | [] => abort "printf: usage: printf format [arg ...]"
  | format :: arguments =>
    let printed := Printing.format format arguments
    modify (·.write 1 printed.bytes)
    for message in printed.messages do
      complainAt ("printf: " ++ message)
    let isInvalid := printed.messages.any (·.endsWith "invalid directive")
    setStatus (if isInvalid then 2 else if printed.messages.isEmpty then 0 else 1)

/-- Runs a small program. -/
def callUtility (utility : Utility) (words : List String) : Script Unit := do
  let s ← get
  let effect := utility words s.input s.files
  set { s with files := effect.files }
  modify (·.write 1 effect.out)
  for message in effect.messages do
    complain message
  setStatus effect.status
  pass effect.time

/-- The commands of the shell that need nothing else to be run. -/
def builtin? (name : String) (words : List String) : Option (Script Unit) :=
  match name with
  | ":" | "umask" | "hash" | "times" | "alias" => some (setStatus 0)
  | "trap" => some (setTraps words)
  | "wait" => some do
    await
    setStatus 0
  | "exit" => some do
    let status ← numberOr (← get).status "exit" words
    setStatus (status % 256)
    throw (.exit (status % 256))
  | "return" => some do
    setStatus ((← numberOr (← get).status "return" words) % 256)
    throw .back
  | "break" => some do throw (.leave (← numberOr 1 "break" words))
  | "continue" => some do throw (.again (← numberOr 1 "continue" words))
  | "shift" => some do
    let n ← numberOr 1 "shift" words
    let s ← get
    if s.arguments.length < n then abort "shift: can't shift that many"
    else set { s with arguments := s.arguments.drop n, status := 0 }
  | "set" => some (setOptions words)
  | "export" | "readonly" | "local" => some (assignWords words)
  | "unset" => some do
    for name in words do
      modify (·.unassign name)
    setStatus 0
  | "cd" => some (changeDirectory words)
  | "kill" => some (kill words)
  | "read" => some (readVariables words)
  | "printf" => some (printFormat words)
  | "test" => some (testCondition "test" words)
  | "[" => some do
    if words.getLast? = some "]" then testCondition "[" words.dropLast
    else
      complainAt "[: missing ]"
      setStatus 2
  | _ => none

/-- The name of a small program, also by its path. -/
def utilityOf? (name : String) : Option Utility :=
  let short := ["/bin/", "/usr/bin/"].findSome? fun folder =>
    if name.startsWith folder then some (name.drop folder.length).toString else none
  Utility.all.lookup (short.getD name)

/-- Reports a command that is not there or cannot be run. -/
def reportMissing (name : String) : Script Unit := do
  let s ← get
  if name.toList.contains '/' && s.files.exists? ⟨name⟩ then
    complainAt (name ++ ": Permission denied")
    setStatus 126
  else if name = "" then
    complainAt ": Permission denied"
    setStatus 127
  else
    complainAt (name ++ ": not found")
    setStatus 127

/-- Ends the script after a failure, if it asks for that. -/
def checkFailure : Script Unit := do
  let s ← get
  if s.status ≠ 0 && s.has 'e' && !s.isTested then throw (.exit s.status)

/-- The commands that end a script if their streams cannot be connected. -/
def isSpecial? (name : String) : Bool :=
  [":", ".", "break", "continue", "eval", "exec", "exit", "export", "readonly", "return", "set",
    "shift",
    "times", "trap", "unset"].contains name

/-- Whether there is a command with a name. -/
def isCommand (s : Session) (name : String) : Bool :=
  (s.functions.lookup name).isSome || (builtin? name []).isSome || (utilityOf? name).isSome ||
    ["eval", "exec", ".", "command"].contains name

/-- Whether a name is one of the shell itself. -/
def isShell (name : String) : Bool :=
  ["sh", "dash", "bash", "/bin/sh", "/bin/dash", "/bin/bash", "/usr/bin/sh", "/usr/bin/dash",
    "/usr/bin/bash"].contains name

/-- The letters of the options of a shell. -/
def shellOptions : List Char :=
  ['a', 'b', 'c', 'e', 'f', 'i', 'm', 'n', 's', 'u', 'v', 'x', 'C', 'E', 'I', 'V']

end StrongCyclic.Shell
