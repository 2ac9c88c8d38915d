/-!
Coloured texts on a terminal. Colours are used unless the environment asks for none or the terminal
is a dumb one.
-/

namespace StrongCyclic

/-- The colours of messages. -/
inductive Color
  | red
  | green
  | yellow
  | blue
deriving DecidableEq, Repr, Inhabited

/-- The number of a colour. -/
def Color.code : Color → Nat
  | red => 31
  | green => 32
  | yellow => 33
  | blue => 34

/-- What the environment says about colours. -/
structure Terminal where
  /-- The value of `NO_COLOR`; any value forbids colours. -/
  noColor : Option String
  /-- The value of `TERM`. -/
  kind : Option String
deriving DecidableEq, Repr, Inhabited

namespace Terminal

/-- Whether texts are coloured. -/
def usesColor (t : Terminal) : Bool :=
  t.noColor.isNone && t.kind ≠ some "dumb"

/-- A text in a colour. -/
def colored (t : Terminal) (color : Color) (text : String) : String :=
  if t.usesColor then "\x1b[" ++ toString color.code ++ "m" ++ text ++ "\x1b[0m" else text

/-- A message of success. -/
def success (t : Terminal) (text : String) : String :=
  t.colored .green text

/-- A message of an error. -/
def error (t : Terminal) (text : String) : String :=
  t.colored .red text

/-- A warning. -/
def warning (t : Terminal) (text : String) : String :=
  t.colored .yellow text

/-- A message of progress. -/
def info (t : Terminal) (text : String) : String :=
  t.colored .blue text

end Terminal

end StrongCyclic
