import StrongCyclic.Controller.Basic
import StrongCyclic.Answer.Output
import StrongCyclic.Disk.FileTree
import StrongCyclic.Sas.Fault
import StrongCyclic.Verification.Verify

/-!
Everything that can stop the work on a problem. A failure has one cause; a trouble is a failure, a
file fault or a plain note under the notes of the steps that were under way. A crash ends the program
with the work: it stands among the failures, but no step goes on after it and no note above it is
shown. Running out of time and finding no solution are outcomes and no failures.
-/

namespace StrongCyclic

/-- What is wrong with the settings. -/
inductive SettingsFault
  | zeroMinimum
  | zeroIncrement
  | minimumAboveMaximum (minimum maximum : Nat)
  | missingFile (what : String) (path : Path)
  | invalidConstraintFile (path : Path)
deriving DecidableEq, Repr, Inhabited

/-- The wording of a fault. -/
def SettingsFault.message : SettingsFault → String
  | .zeroMinimum => "Minimum number of states must be positive"
  | .zeroIncrement => "State increment must be positive"
  | .minimumAboveMaximum minimum maximum =>
    "Minimum states (" ++ toString minimum ++ ") exceeds maximum states (" ++
      toString maximum ++ ")"
  | .missingFile what path => what ++ " does not exist: " ++ path.text
  | .invalidConstraintFile path => "invalid constraint file " ++ path.text

/-- What stops the work on a problem. -/
inductive Failure
  | task (fault : Sas.LineFault)
  | answer (fault : Answer.LineFault)
  | controller (fault : Controller.LineFault)
  /-- An atom of a weak plan is malformed. -/
  | backbone (a : Atom)
  | solver (command status stderr : String)
  | verification (fault : Verification.Fault)
  | settings (fault : SettingsFault)
  | file (fault : FileFault)
  | crash (crash : Crash)
deriving DecidableEq, Repr, Inhabited

namespace Failure

/-- What it means for the work that a file gives no task. -/
def ofStop : Sas.Stop → Failure
  | .fault fault => task fault
  | .crash cause => crash cause

/-- The message of a fault of a text. -/
def atLine (line : Nat) (message : String) : String :=
  "parse error at line " ++ toString line ++ ": " ++ message

/-- The message of a failure. -/
def message : Failure → String
  | task fault => atLine fault.line fault.fault.message
  | answer fault => atLine fault.line fault.fault.message
  | controller fault => atLine fault.line fault.fault.message
  | backbone a => atLine 0 ("malformed backbone atom `" ++ a.text ++ "`")
  | solver command status stderr =>
    "solver process `" ++ command ++ "` failed (" ++ status ++ "): " ++ stderr
  | verification fault => "verification failed: " ++ fault.message
  | settings fault => "configuration error: " ++ fault.message
  | file fault => "IO error: " ++ fault.message
  | crash cause => cause.message

/-- The messages of a failure and of the fault below it. -/
def messages : Failure → List String
  | file fault => [message (file fault), fault.message]
  | failure => [failure.message]

end Failure

/-- What was being done when a trouble arose, or what was found missing. -/
inductive Note
  | readingTask (path : Path)
  | parsingTask (path : Path)
  | creatingOutput (path : Path)
  | fileNotFound (path : Path)
  | copying (source target : Path)
  | invalidProgram (path : Path)
  | writingInstance (path : Path)
  | estimatingBackbone
  | detectingUndo
  | reading (path : Path)
  | parsing (path : Path)
  | noOutput (directory : Path)
  | noController (path : Path)
  | buildingController (path : Path)
  | writing (path : Path)
  | writingGraph (path : Path)
  | verifying (directory : Path)
  | readingSettings (path : Path)
  | parsingSettings (path : Path)
  | malformedSettings
  | loadingSettings (path : Path)
  | creatingParent (path : Path)
  | writingSettings (path : Path)
  | creatingDirectory (path : Path)
  | creatingDefaults
  | solving
  | checkingRun (directory : Path)
deriving DecidableEq, Repr, Inhabited

/-- The wording of a note. -/
def Note.message : Note → String
  | readingTask path => "Failed to read SAS file: " ++ path.text
  | parsingTask path => "Failed to parse SAS file: " ++ path.text
  | creatingOutput path => "Failed to create output directory: " ++ path.text
  | fileNotFound path => "File not found: " ++ path.text
  | copying source target => "Failed to copy " ++ source.text ++ " to " ++ target.text
  | invalidProgram path => "Invalid program path: " ++ path.text
  | writingInstance path => "Failed to write instance: " ++ path.text
  | estimatingBackbone => "Backbone estimation failed"
  | detectingUndo => "Undo action detection failed"
  | reading path => "Failed to read " ++ path.text
  | parsing path => "Failed to parse " ++ path.text
  | noOutput directory => "No solver output found in " ++ directory.text
  | noController path => "No controller in " ++ path.text
  | buildingController path => "Failed to build controller from " ++ path.text
  | writing path => "Failed to write " ++ path.text
  | writingGraph path => "Failed to write controller graph: " ++ path.text
  | verifying directory => "Verification failed in " ++ directory.text
  | readingSettings path => "Failed to read config file: " ++ path.text
  | parsingSettings path => "Failed to parse config file: " ++ path.text
  | malformedSettings => "malformed settings"
  | loadingSettings path => "Failed to load config from " ++ path.text
  | creatingParent path => "Failed to create directory: " ++ path.text
  | writingSettings path => "Failed to write config file: " ++ path.text
  | creatingDirectory path => "Failed to create directory " ++ path.text
  | creatingDefaults => "Failed to create default configuration"
  | solving => "Configuration validation or solving failed"
  | checkingRun directory => "Failed to verify " ++ directory.text

/-- A failure, a file fault or a note, below the notes of the steps under way. -/
inductive Trouble
  | failure (failure : Failure)
  | file (fault : FileFault)
  | note (note : Note)
  | during (note : Note) (cause : Trouble)
deriving DecidableEq, Repr, Inhabited

namespace Trouble

/-- The messages from the outermost step to the innermost cause. -/
def messages : Trouble → List String
  | failure f => f.messages
  | file fault => [fault.message]
  | note n => [n.message]
  | during n cause => n.message :: cause.messages

/-- All messages in one line. -/
def text (t : Trouble) : String :=
  ": ".intercalate t.messages

/-- The failure at the bottom, if there is one. -/
def failure? : Trouble → Option Failure
  | failure f => some f
  | during _ cause => cause.failure?
  | _ => none

/-- The crash at the bottom, if there is one. -/
def crash? (t : Trouble) : Option Crash :=
  match t.failure? with
  | some (.crash cause) => some cause
  | _ => none

/-- The file fault at the bottom, if it is no failure. -/
def fileFault? : Trouble → Option FileFault
  | file fault => some fault
  | during _ cause => cause.fileFault?
  | _ => none

/-- The lines of a message behind a mark, the later ones indented to the same column. -/
def indented (mark rest message : String) : String :=
  ("\n" ++ rest).intercalate ((Text.splitWhere (· == '\n') message.toList).map String.ofList)
    |> (mark ++ ·)

/-- A number before a cause, in a column of five. -/
def causeMark (n : Nat) : String :=
  Text.alignRight 5 (toString n) ++ ": "

/-- The outermost message and, below it, the causes, which are numbered if there are several. -/
def report (t : Trouble) : String :=
  match t.messages with
  | [] => ""
  | [message] => message
  | [message, cause] => message ++ "\n\nCaused by:\n" ++ indented "    " "    " cause
  | message :: causes =>
    message ++ "\n\nCaused by:" ++
      String.join (causes.mapIdx fun n cause => "\n" ++ indented (causeMark n) "       " cause)

end Trouble

end StrongCyclic
