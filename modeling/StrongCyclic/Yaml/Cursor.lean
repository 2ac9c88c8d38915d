import StrongCyclic.Yaml.Node

/-!
Places in a document. Lines and columns count from zero, and the layout of a document depends on
them. A line ends with a line feed; other line ends are replaced by one before reading.
-/

namespace StrongCyclic.Yaml

/-- Whether a character may stand in a document. -/
def isPrintable (c : Char) : Bool :=
  let code := c.toNat
  c = '\t' || c = '\n' || c = '\r' || (0x20 ≤ code && code ≤ 0x7E) || code == 0x85 ||
    (0xA0 ≤ code && code ≤ 0xFFFD) || 0x10000 ≤ code

/-- Replaces every line end by a line feed. -/
def unifyLineEnds : List Char → List Char
  | [] => []
  | '\r' :: '\n' :: cs => '\n' :: unifyLineEnds cs
  | c :: cs => (if c = '\r' ∨ c.toNat = 0x85 then '\n' else c) :: unifyLineEnds cs

/-- Whether a character separates words on a line. -/
def isSpace (c : Char) : Bool :=
  c = ' ' || c = '\t'

/-- Whether a text is at a blank or at its end. -/
def atGap : List Char → Bool
  | [] => true
  | c :: _ => isSpace c || c = '\n'

/-- A place in a document, with the nodes that have been given a name so far. -/
structure Cursor where
  rest : List Char
  line : Nat
  column : Nat
  anchors : List (String × Node)
deriving Inhabited

namespace Cursor

/-- The start of a document. -/
def start (rest : List Char) : Cursor :=
  ⟨rest, 0, 0, []⟩

/-- The place behind the next character. -/
def next (c : Cursor) : Cursor :=
  match c.rest with
  | [] => c
  | ch :: rest =>
    if ch = '\n' then { c with rest, line := c.line + 1, column := 0 }
    else { c with rest, column := c.column + 1 }

/-- The place behind the next `n` characters. -/
def advance : Nat → Cursor → Cursor
  | 0, c => c
  | n + 1, c => advance n c.next

/-- The characters in front that satisfy a test, and the place behind them. -/
def takeWhile (c : Cursor) (p : Char → Bool) : List Char × Cursor :=
  let chars := c.rest.takeWhile p
  (chars, c.advance chars.length)

/-- The place behind blanks on the same line. -/
def skipSpaces (c : Cursor) : Cursor :=
  (c.takeWhile isSpace).2

/-- Whether a line with three times the same mark, alone or before a blank, starts here. -/
def isAtLine (c : Cursor) (mark : Char) : Bool :=
  c.column == 0 && c.rest.take 3 = [mark, mark, mark] && atGap (c.rest.drop 3)

/-- Whether a mark between documents starts here. -/
def isAtMarker (c : Cursor) : Bool :=
  c.isAtLine '-' || c.isAtLine '.'

/-- Whether an indicator that has to be followed by a blank is here. -/
def isAt (c : Cursor) (indicator : Char) : Bool :=
  match c.rest with
  | ch :: rest => ch = indicator && atGap rest
  | [] => false

/-- The place behind the characters that a gap may begin with: blanks, line ends and comments. After
a line end outside of brackets, a tab ends the gap. -/
def skipGapChars (inBrackets : Bool) : Bool → Bool → List Char → Cursor → Cursor
  | _, _, [], c => c
  | tabs, comment, ch :: rest, c =>
    if ch = '\n' then skipGapChars inBrackets inBrackets false rest c.next
    else if comment || ch = ' ' || (ch = '\t' && tabs) then
      skipGapChars inBrackets tabs comment rest c.next
    else if ch = '#' then skipGapChars inBrackets tabs true rest c.next
    else c

/-- The place of the next token; `tabs` tells whether tabs may stand on this line. -/
def skipGap (inBrackets tabs : Bool) (c : Cursor) : Cursor :=
  skipGapChars inBrackets (tabs || inBrackets) false c.rest c

/-- Gives a node a name. -/
def bind (c : Cursor) (name : String) (n : Node) : Cursor :=
  { c with anchors := (name, n) :: c.anchors }

end Cursor

end StrongCyclic.Yaml
