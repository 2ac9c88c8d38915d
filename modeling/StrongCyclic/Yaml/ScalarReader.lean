import StrongCyclic.Yaml.Cursor

/-!
Reading scalars. A scalar may go on over several lines; a single line end between two words counts
as a blank, and of several the first is dropped. In block scalars the layout is kept.
-/

namespace StrongCyclic.Yaml

/-! ## Folding -/

/-- Blanks and line ends that were passed. -/
structure Break where
  spaces : List Char
  lineEnds : Nat
deriving Inhabited

/-- What a break within a scalar stands for. -/
def Break.folded (b : Break) : List Char :=
  match b.lineEnds with
  | 0 => b.spaces
  | 1 => [' ']
  | n + 1 => List.replicate n '\n'

/-- Passes blanks and line ends, at most `fuel` of them. -/
def passBreak : Nat → Break → Cursor → Break × Cursor
  | 0, b, c => (b, c)
  | fuel + 1, b, c =>
    match c.rest with
    | [] => (b, c)
    | ch :: _ =>
      if ch = '\n' then passBreak fuel { b with lineEnds := b.lineEnds + 1 } c.next
      else if isSpace ch then
        passBreak fuel { b with spaces := if b.lineEnds = 0 then b.spaces ++ [ch] else b.spaces }
          c.next
      else (b, c)

/-- Passes blanks and line ends. -/
def breakAt (c : Cursor) : Break × Cursor :=
  passBreak c.rest.length ⟨[], 0⟩ c

/-! ## Plain scalars -/

/-- The characters that have a meaning between brackets. -/
def isFlowIndicator (c : Char) : Bool :=
  [',', '[', ']', '\x7b', '\x7d'].contains c

/-- Whether a plain scalar can start here. -/
def startsPlain (inBrackets : Bool) : List Char → Bool
  | [] => false
  | c :: rest =>
    if c = '-' then !(rest.head?.any isSpace)
    else if c = '?' || c = ':' then !inBrackets && !atGap rest
    else !(isSpace c || c = '\n' || isFlowIndicator c ||
      ['#', '&', '*', '!', '|', '>', '\'', '"', '%', '@', '\x60'].contains c)

/-- Whether a colon between brackets stands in front of an indicator. -/
def colonBeforeIndicator : List Char → Bool
  | ':' :: c :: _ => isFlowIndicator c || c = '?'
  | _ => false

/-- The word of a plain scalar at the start of a text. -/
def plainWord (inBrackets : Bool) : List Char → List Char
  | [] => []
  | c :: rest =>
    if isSpace c || c = '\n' then []
    else if c = ':' && atGap rest then []
    else if inBrackets && (isFlowIndicator c || colonBeforeIndicator (c :: rest)) then []
    else c :: plainWord inBrackets rest

/-- Whether a tab stands where the indentation should be. -/
def tabInIndent (least : Nat) (c : Cursor) : Bool :=
  ((c.rest.takeWhile fun ch => isSpace ch || ch = '\n').foldl
    (fun (column, broken, bad) ch =>
      if ch = '\n' then (0, true, bad)
      else (column + 1, broken, bad || (broken && ch = '\t' && column < least)))
    (c.column, false, false)).2.2

/-- Reads on after a word of a plain scalar. Outside of brackets its lines start at column `least`
or behind it. -/
def plainFrom (inBrackets : Bool) (least : Nat) : Nat → List Char → Cursor →
    Option (List Char × Cursor)
  | 0, _, _ => none
  | fuel + 1, text, c =>
    if inBrackets && colonBeforeIndicator c.rest then none
    else if tabInIndent least c then none
    else
      let (b, next) := breakAt c
      if (b.lineEnds ≠ 0 && !inBrackets && next.column < least) || next.isAtMarker ||
          next.rest.head? = some '#' then some (text, next)
      else match plainWord inBrackets next.rest with
        | [] => if inBrackets && colonBeforeIndicator next.rest then none else some (text, next)
        | word =>
          plainFrom inBrackets least fuel (text ++ b.folded ++ word) (next.advance word.length)

/-- Reads a plain scalar. -/
def plain? (inBrackets : Bool) (least : Nat) (c : Cursor) : Option (Node × Cursor) :=
  let word := plainWord inBrackets c.rest
  (plainFrom inBrackets least c.rest.length word (c.advance word.length)).map fun (text, c) =>
    (.scalar none true (String.ofList text), c)

/-! ## Quoted scalars -/

/-- The characters that stand for another one after a backslash. -/
def escapes : List (Char × Char) :=
  [('0', '\x00'), ('a', '\x07'), ('b', '\x08'), ('t', '\t'), ('\t', '\t'), ('n', '\n'),
    ('v', '\x0b'), ('f', '\x0c'), ('r', '\r'), ('e', '\x1b'), (' ', ' '), ('"', '"'), ('/', '/'),
    ('\\', '\\'), ('N', '\x85'), ('_', '\xa0'), ('L', '\u2028'), ('P', '\u2029')]

/-- The number of hexadecimal digits after an escape. -/
def codeLength? : Char → Option Nat
  | 'x' => some 2
  | 'u' => some 4
  | 'U' => some 8
  | _ => none

/-- The character with a code. -/
def charOfCode? (code : Nat) : Option Char :=
  if code.isValidChar then some (Char.ofNat code) else none

/-- The character that an escape stands for, and its length without the backslash. -/
def escape? (cs : List Char) : Option (Char × Nat) := do
  let c ← cs.head?
  match escapes.lookup c with
  | some ch => some (ch, 1)
  | none =>
    let n ← codeLength? c
    let digits := cs.tail.take n
    if digits.length < n then none
    else
      let code ← baseValue? 16 digits
      (charOfCode? code).map fun ch => (ch, n + 1)

/-- Reads the rest of a scalar in single or double quotes. -/
def quotedFrom (double : Bool) : Nat → List Char → Cursor → Option (List Char × Cursor)
  | 0, _, _ => none
  | fuel + 1, text, c =>
    if c.isAtMarker then none
    else match c.rest with
      | [] => none
      | ch :: rest =>
        if isSpace ch || ch = '\n' then
          let (b, next) := breakAt c
          quotedFrom double fuel (text ++ b.folded) next
        else if ch = (if double then '"' else '\'') then
          if !double && rest.head? = some '\'' then
            quotedFrom double fuel (text ++ ['\'']) (c.advance 2)
          else some (text, c.next)
        else if double && ch = '\\' then
          if rest.head? = some '\n' then
            let (b, next) := breakAt (c.advance 2)
            quotedFrom double fuel (text ++ List.replicate b.lineEnds '\n') next
          else match escape? rest with
            | some (ch, n) => quotedFrom double fuel (text ++ [ch]) (c.advance (n + 1))
            | none => none
        else quotedFrom double fuel (text ++ [ch]) c.next

/-- Reads a scalar in quotes. -/
def quoted? (double : Bool) (c : Cursor) : Option (Node × Cursor) :=
  (quotedFrom double c.rest.length [] c.next).map fun (text, c) =>
    (.scalar none false (String.ofList text), c)

/-! ## Block scalars -/

/-- What becomes of the line ends after a block scalar. -/
inductive Chomping
  | strip
  | clip
  | keep

/-- The header of a block scalar: how it ends and the indentation, if it is given. -/
structure BlockHeader where
  chomping : Chomping := .clip
  increment : Option Nat := none

/-- The meaning of the marks in a header, of which each kind may occur once. -/
def header? : List Char → Option BlockHeader
  | [] => some {}
  | ['-'] => some ⟨.strip, none⟩
  | ['+'] => some ⟨.keep, none⟩
  | [d] => if '1' ≤ d ∧ d ≤ '9' then some ⟨.clip, digitValue? d⟩ else none
  | [a, b] =>
    if '1' ≤ a ∧ a ≤ '9' then
      if b = '-' then some ⟨.strip, digitValue? a⟩
      else if b = '+' then some ⟨.keep, digitValue? a⟩
      else none
    else if '1' ≤ b ∧ b ≤ '9' then
      if a = '-' then some ⟨.strip, digitValue? b⟩
      else if a = '+' then some ⟨.keep, digitValue? b⟩
      else none
    else none
  | _ => none

/-- Passes the line ends and the indentation before a line of a block scalar; without an indentation
the largest one that is met is returned. -/
def passIndent (indent : Option Nat) : Nat → Nat → Nat → Cursor → Option (Nat × Nat × Cursor)
  | 0, lineEnds, most, c => some (lineEnds, most, c)
  | fuel + 1, lineEnds, most, c =>
    let inIndent := indent.all (c.column < ·)
    match c.rest with
    | [] => some (lineEnds, max most c.column, c)
    | ch :: _ =>
      if inIndent && ch = ' ' then passIndent indent fuel lineEnds most c.next
      else if inIndent && ch = '\t' then none
      else if ch = '\n' then passIndent indent fuel (lineEnds + 1) (max most c.column) c.next
      else some (lineEnds, max most c.column, c)

/-- The text of a block scalar so far, with the line ends that are not part of it yet. -/
structure BlockText where
  text : List Char
  /-- Whether the last line ended with a line end. -/
  ended : Bool
  /-- The number of empty lines after it. -/
  empty : Nat
  /-- Whether the last line started with a blank. -/
  indented : Bool

/-- The text before the next line. -/
def BlockText.join (literal : Bool) (b : BlockText) (nextIndented : Bool) : List Char :=
  let empty := List.replicate b.empty '\n'
  if !b.ended then b.text ++ empty
  else if !literal && !b.indented && !nextIndented then
    b.text ++ if b.empty = 0 then [' '] else empty
  else b.text ++ '\n' :: empty

/-- The text at the end. -/
def BlockText.finish (b : BlockText) : Chomping → List Char
  | .strip => b.text
  | .clip => b.text ++ if b.ended then ['\n'] else []
  | .keep => b.text ++ (if b.ended then ['\n'] else []) ++ List.replicate b.empty '\n'

/-- Reads the lines of a block scalar. -/
def blockFrom (literal : Bool) (indent : Nat) :
    Nat → BlockText → Cursor → Option (BlockText × Cursor)
  | 0, b, c => some (b, c)
  | fuel + 1, b, c =>
    if c.column ≠ indent ∨ c.rest = [] then some (b, c)
    else
      let indented := c.rest.head?.any isSpace
      let text := b.join literal indented
      let (line, c) := c.takeWhile (· ≠ '\n')
      let ended := c.rest.head? = some '\n'
      match passIndent (some indent) c.rest.length 0 0 c.next with
      | none => none
      | some (empty, _, c) => blockFrom literal indent fuel ⟨text ++ line, ended, empty, indented⟩ c

/-- Reads a block scalar; its lines start at column `least` or behind it. -/
def block? (least : Nat) (c : Cursor) : Option (Node × Cursor) := do
  let literal := c.rest.head? = some '|'
  let (marks, c) := c.next.takeWhile fun ch => !(isSpace ch || ch = '\n' || ch = '#')
  let header ← header? marks
  let c := c.skipSpaces
  let c := if c.rest.head? = some '#' then (c.takeWhile (· ≠ '\n')).2 else c
  if !(c.rest.head?.all (· = '\n')) then none
  else
    let indent := header.increment.map (· + (least - 1))
    let (empty, most, c) ← passIndent indent c.rest.length 0 0 c.next
    let (b, c) ← blockFrom literal (indent.getD (max most (max least 1))) c.rest.length
      ⟨[], false, empty, false⟩ c
    return (.scalar none false (String.ofList (b.finish header.chomping)), c)

end StrongCyclic.Yaml
