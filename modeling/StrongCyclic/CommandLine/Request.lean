import StrongCyclic.CommandLine.Option
import StrongCyclic.Settings.Basic

/-!
What a command line asks for: to solve a problem, to verify runs, to analyze a task or to set up a
directory. The options in front of the command are those of all commands.
-/

namespace StrongCyclic.CommandLine

/-- What is asked for. -/
inductive Request
  | solve (settingsFile : Path) (overrides : Overrides)
  | verify (directories : List Path) (details : Bool)
  | analyze (taskFile : Path) (encoding : Bool)
  | setup (directory : Path) (force : Bool)
deriving DecidableEq, Repr

/-- A request, and whether more is to be printed. -/
structure Call where
  verbose : Bool
  request : Request
deriving DecidableEq, Repr

/-- A flag. -/
def flag (name : String) (letter : Option Char) : OptionForm :=
  ⟨name, letter, none⟩

/-- The options of all commands. -/
def sharedForms : List OptionForm :=
  [flag "verbose" (some 'v'), flag "help" (some 'h')]

/-- The options in front of the command. -/
def leadingForms : List OptionForm :=
  flag "version" (some 'V') :: sharedForms

/-- The options of the command that solves a problem. -/
def solveForms : List OptionForm :=
  [⟨"config", some 'c', some .path⟩, ⟨"sas", some 's', some .path⟩,
    ⟨"output", some 'o', some .path⟩,
    ⟨"min-states", none, some .number⟩, ⟨"max-states", none, some .number⟩,
    ⟨"inc-states", none, some .number⟩, ⟨"timeout", some 't', some .number⟩,
    flag "backbone" (some 'b')]

/-- The options of the command that sets up a directory. -/
def setupForms : List OptionForm :=
  [⟨"directory", some 'd', some .path⟩, flag "force" (some 'f')]

/-- The path that an option gives. -/
def Collected.path? (c : Collected) (name : String) : Option Path :=
  (c.values.lookup name).map Path.mk

/-- The number that an option gives. -/
def Collected.number? (c : Collected) (name : String) : Option Nat :=
  (c.values.lookup name).bind Text.natural?

/-- Whether a flag is set. -/
def Collected.has (c : Collected) (name : String) : Bool :=
  c.flags.contains name

/-- The request to solve a problem. -/
def solveRequest (c : Collected) : Request :=
  .solve ((c.path? "config").getD ⟨"config/default.yaml"⟩)
    { taskFile := c.path? "sas", directory := c.path? "output", min := c.number? "min-states"
      max := c.number? "max-states", step := c.number? "inc-states"
      timeLimit := c.number? "timeout"
      backbone := c.has "backbone" }

/-- Reads the words behind a command. -/
def readArguments (forms : List OptionForm) (limit : Option Nat) (words : List String) :
    Except Refusal Collected :=
  collect limit {} (readItems (sharedForms ++ forms) .free words)

/-- The names of the commands. -/
def commandNames : List String := ["solve", "verify", "analyze", "setup", "help"]

/-- Reads a command and the words behind it. -/
def readCommand (name : String) (words : List String) : Except Refusal (Request × Collected) := do
  match name with
  | "solve" =>
    let c ← readArguments solveForms (some 0) words
    return (solveRequest c, c)
  | "verify" =>
    let c ← readArguments [flag "details" none] none words
    if c.words.isEmpty then .error .misuse
    else return (.verify (c.words.map Path.mk) (c.has "details"), c)
  | "analyze" =>
    let c ← readArguments [flag "encoding" none] (some 1) words
    match c.words with
    | [path] => return (.analyze ⟨path⟩ (c.has "encoding"), c)
    | _ => .error .misuse
  | "setup" =>
    let c ← readArguments setupForms (some 0) words
    return (.setup ((c.path? "directory").getD ⟨"."⟩) (c.has "force"), c)
  | "help" =>
    if words.length ≤ 1 ∧ words.all commandNames.contains then .error .help else .error .misuse
  | _ => .error .misuse

/-- Reads a command line. -/
def read (words : List String) : Except Refusal Call := do
  let leading := words.takeWhile holdsOptions
  let items := leading.flatMap fun word =>
    if word = "--" then [.fault] else (readWord leadingForms word).1
  let c ← collect (some 0) {} items
  match words.drop leading.length with
  | name :: rest =>
    let (request, inner) ← readCommand name rest
    return { verbose := c.has "verbose" || inner.has "verbose", request }
  | [] => .error .misuse

end StrongCyclic.CommandLine
