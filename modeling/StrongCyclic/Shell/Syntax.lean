/-!
Shell scripts. A word consists of parts that are expanded when it is used; a command substitution
keeps its source, which is read when it is run. Characters carry the numbers of their lines, so that
a message can name the line even where the text of a document has been taken out.
-/

namespace StrongCyclic.Shell

/-- A text with the number of the line of each character. -/
structure Source where
  chars : List (Char × Nat)
  /-- The number of the line behind the last character. -/
  last : Nat
deriving Repr, Inhabited

namespace Source

/-- Numbers the lines of a text from `line` on. -/
def number : Nat → List Char → List (Char × Nat)
  | _, [] => []
  | line, c :: cs => (c, line) :: number (if c = '\n' then line + 1 else line) cs

/-- A text as a source. -/
def ofText (text : String) : Source :=
  ⟨number 1 text.toList, 1 + text.toList.count '\n'⟩

/-- The number of the current line. -/
def line (s : Source) : Nat :=
  match s.chars with
  | (_, n) :: _ => n
  | [] => s.last

/-- The next character. -/
def head? (s : Source) : Option Char :=
  s.chars.head?.map Prod.fst

/-- The source without its first `n` characters. -/
def drop (s : Source) (n : Nat) : Source :=
  { s with chars := s.chars.drop n }

/-- The characters at the start that satisfy a test. -/
def takeWhile (s : Source) (p : Char → Bool) : List Char :=
  (s.chars.takeWhile (p ·.1)).map Prod.fst

/-- Whether the source starts with a text. -/
def startsWith (s : Source) (text : List Char) : Bool :=
  (s.chars.take text.length).map Prod.fst = text

end Source

/-- What is done with the value of a parameter. Where a colon is possible, it makes an empty value
count as missing. -/
inductive ParameterUse
  | value
  | length
  | orElse (colon : Bool)
  | orAssign (colon : Bool)
  | ifSet (colon : Bool)
  | orFail (colon : Bool)
  | withoutEnd (longest : Bool)
  | withoutStart (longest : Bool)
deriving Repr, Inhabited

/-- A part of a word. -/
inductive Part
  | text (quoted : Bool) (chars : List Char)
  | parameter (quoted : Bool) (name : String) (use : ParameterUse) (word : List Part)
  | output (quoted : Bool) (source : Source)
  | arithmetic (quoted : Bool) (expression : List Part)
deriving Inhabited

/-- A word. -/
abbrev Word := List Part

/-- What a stream of a command is connected with. -/
inductive RedirectKind
  | input (file : Word)
  | output (file : Word)
  | append (file : Word)
  | duplicate (stream : Word)
  | document (text : Word)
deriving Inhabited

/-- A redirection of a stream. -/
structure Redirect where
  stream : Nat
  kind : RedirectKind
deriving Inhabited

/-- A command. -/
inductive Command
  | simple (line : Nat) (assignments : List (String × Word)) (words : List Word)
    (redirects : List Redirect)
  | pipeline (negated : Bool) (commands : List Command)
  | andThen (first second : Command)
  | orElse (first second : Command)
  | sequence (commands : List Command)
  | background (command : Command)
  | group (command : Command) (redirects : List Redirect)
  | subshell (command : Command) (redirects : List Redirect)
  | branch (condition yes no : Command) (redirects : List Redirect)
  | loop (expected : Bool) (condition body : Command) (redirects : List Redirect)
  | each (name : String) (words : List Word) (body : Command) (redirects : List Redirect)
  | select (word : Word) (branches : List (List Word × Command)) (redirects : List Redirect)
  | define (name : String) (body : Command)
deriving Inhabited

/-- The command that does nothing. -/
def Command.nothing : Command := .sequence []

/-- Why a script cannot be read on. -/
structure SyntaxFault where
  line : Nat
  message : String
deriving Repr, Inhabited

end StrongCyclic.Shell
