import StrongCyclic.Shell.Syntax

/-!
Reading words. Outside of quotes a word ends at a blank or at an operator. A backslash and single
quotes take characters as they are; in double quotes dollars, backticks and some backslashes keep
their meaning.
-/

namespace StrongCyclic.Shell

/-- A fault at the current line. -/
def failAt {α : Type} (s : Source) (message : String) : Except SyntaxFault α :=
  .error ⟨s.line, "Syntax error: " ++ message⟩

/-- The characters that end a word. -/
def isMeta (c : Char) : Bool :=
  [' ', '\t', '\n', ';', '&', '|', '<', '>', '(', ')'].contains c

/-- Whether a name can start with a character. -/
def startsName (c : Char) : Bool :=
  c.isAlpha || c = '_'

/-- Whether a character can stand in a name. -/
def isNameChar (c : Char) : Bool :=
  c.isAlphanum || c = '_'

/-- The text that parts are read from. -/
inductive Quoting
  | bare
  | double
  /-- Between braces behind a dollar. -/
  | braces (quoted : Bool)
  /-- A document or an expression. -/
  | document
deriving DecidableEq, Repr, Inhabited

namespace Quoting

/-- Whether parts are taken as they are, without being split. -/
def isQuoted : Quoting → Bool
  | bare => false
  | double => true
  | braces quoted => quoted
  | document => true

/-- Whether parts end at a character. -/
def stopsAt (q : Quoting) (c : Char) : Bool :=
  match q with
  | bare => isMeta c
  | double => c = '"'
  | braces _ => c = '\x7d'
  | document => false

/-- Whether single quotes have a meaning. -/
def hasSingleQuotes (q : Quoting) : Bool :=
  q = .bare || q = .braces false

/-- Whether double quotes have a meaning. -/
def hasDoubleQuotes (q : Quoting) : Bool :=
  match q with
  | bare => true
  | braces _ => true
  | _ => false

/-- Whether a backslash keeps its meaning in front of a character. -/
def escapes (q : Quoting) (c : Char) : Bool :=
  !q.isQuoted || c = '$' || c = '\\' || c = '\x60' || c = '\n' || (c = '"' && q ≠ .document) ||
    (c = '\x7d' && q = .braces true)

/-- Checks that parts may end with the source. -/
def checkEnd (q : Quoting) (s : Source) : Except SyntaxFault Unit :=
  match q with
  | double => failAt s "Unterminated quoted string"
  | braces _ => failAt s "Missing '\x7d'"
  | _ => .ok ()

end Quoting

/-- Puts a character in front of parts. -/
def consChar (quoted : Bool) (c : Char) : List Part → List Part
  | .text quoted' cs :: parts =>
    if quoted = quoted' then .text quoted (c :: cs) :: parts
    else .text quoted [c] :: .text quoted' cs :: parts
  | parts => .text quoted [c] :: parts

/-- The characters up to the parenthesis that closes the current one, and what follows it; `quote`
is the mark of the quotes around. -/
def untilClose : Nat → Option Char → List (Char × Nat) →
    Option (List (Char × Nat) × List (Char × Nat))
  | _, _, [] => none
  | depth, quote, (c, n) :: rest =>
    let consume (depth : Nat) (quote : Option Char) :=
      (untilClose depth quote rest).map fun (inside, rest) => ((c, n) :: inside, rest)
    match quote with
    | some mark => consume depth (if c = mark then none else quote)
    | none =>
      if c = ')' then
        match depth with
        | 0 => some ([], rest)
        | depth + 1 => consume depth none
      else if c = '(' then consume (depth + 1) none
      else consume depth (if c = '\'' ∨ c = '"' then some c else none)

/-- The characters up to a backtick, without the backslashes in front of backticks, backslashes and
dollars. -/
def untilBacktick : List (Char × Nat) → Option (List (Char × Nat) × List (Char × Nat))
  | [] => none
  | ('\\', n) :: (c, n') :: rest =>
    (untilBacktick rest).map fun (inside, rest) =>
      if ['\x60', '\\', '$'].contains c then ((c, n') :: inside, rest)
      else (('\\', n) :: (c, n') :: inside, rest)
  | (c, n) :: rest =>
    if c = '\x60' then some ([], rest)
    else (untilBacktick rest).map fun (inside, rest) => ((c, n) :: inside, rest)

/-- The marks of the uses of a parameter, the longer ones first. -/
def parameterUses : List (String × ParameterUse) :=
  [(":-", .orElse true), (":=", .orAssign true), (":+", .ifSet true), (":?", .orFail true),
    ("-", .orElse false), ("=", .orAssign false), ("+", .ifSet false), ("?", .orFail false),
    ("%%", .withoutEnd true), ("%", .withoutEnd false), ("##", .withoutStart true),
    ("#", .withoutStart false)]

/-- The characters that are names of parameters by themselves. -/
def isSpecial (c : Char) : Bool :=
  c.isDigit || ['@', '*', '#', '?', '-', '$', '!'].contains c

/-- The name of a parameter at the start; between braces it may have several digits. -/
def parameterName (inBraces : Bool) (s : Source) : String :=
  match s.head? with
  | none => ""
  | some c =>
    if startsName c then String.ofList (s.takeWhile isNameChar)
    else if inBraces && c.isDigit then String.ofList (s.takeWhile Char.isDigit)
    else if isSpecial c then String.singleton c
    else ""

mutual

/-- Reads parts up to the end of the word or of the quotes, which is not passed. -/
def readParts (q : Quoting) : Nat → Source → Except SyntaxFault (List Part × Source)
  | 0, s => failAt s "word too long"
  | fuel + 1, s =>
    match s.head? with
    | none => do
      q.checkEnd s
      return ([], s)
    | some c =>
      let next := s.drop 1
      if q.stopsAt c then .ok ([], s)
      else if c = '\\' then
        match next.head? with
        | none => .ok ([.text q.isQuoted ['\\']], next)
        | some d => do
          if !q.escapes d then
            let (parts, s) ← readParts q fuel next
            return (consChar true c parts, s)
          else
            let (parts, s) ← readParts q fuel (next.drop 1)
            return (if d = '\n' then parts else consChar true d parts, s)
      else if c = '\'' && q.hasSingleQuotes then
        let text := next.takeWhile (· ≠ '\'')
        let after := next.drop text.length
        match after.head? with
        | none => failAt after "Unterminated quoted string"
        | some _ => do
          let (parts, s) ← readParts q fuel (after.drop 1)
          return (.text true text :: parts, s)
      else if c = '"' && q.hasDoubleQuotes then do
        let (inside, s) ← readParts .double fuel next
        let (parts, s) ← readParts q fuel (s.drop 1)
        return ((if inside.isEmpty then [.text true []] else inside) ++ parts, s)
      else if c = '$' then do
        let (part, s) ← readDollar q.isQuoted fuel next
        let (parts, s) ← readParts q fuel s
        return (part :: parts, s)
      else if c = '\x60' then
        match untilBacktick next.chars with
        | none => failAt ⟨[], s.last⟩ "EOF in backquote substitution"
        | some (inside, rest) => do
          let (parts, after) ← readParts q fuel ⟨rest, s.last⟩
          return (.output q.isQuoted ⟨inside, s.last⟩ :: parts, after)
      else do
        let (parts, s) ← readParts q fuel next
        return (consChar q.isQuoted c parts, s)
termination_by structural fuel => fuel

/-- Reads what stands behind a dollar. -/
def readDollar (quoted : Bool) : Nat → Source → Except SyntaxFault (Part × Source)
  | 0, s => failAt s "word too long"
  | fuel + 1, s =>
    if s.startsWith ['(', '('] then
      match untilClose 0 none (s.drop 2).chars with
      | some (inside, (')', _) :: rest) => do
        let (parts, _) ← readParts .document fuel ⟨inside, s.line⟩
        return (.arithmetic quoted parts, ⟨rest, s.last⟩)
      | _ => failAt ⟨[], s.last⟩ "Missing '))'"
    else if s.startsWith ['('] then
      match untilClose 0 none (s.drop 1).chars with
      | some (inside, rest) => .ok (.output quoted ⟨inside, s.line⟩, ⟨rest, s.last⟩)
      | none => failAt ⟨[], s.last⟩ "end of file unexpected (expecting \")\")"
    else if s.startsWith ['\x7b'] then readBraces quoted fuel (s.drop 1)
    else
      match parameterName false s with
      | "" => .ok (.text quoted ['$'], s)
      | name => .ok (.parameter quoted name .value [], s.drop name.length)
termination_by structural fuel => fuel

/-- Reads a parameter between braces. -/
def readBraces (quoted : Bool) : Nat → Source → Except SyntaxFault (Part × Source)
  | 0, s => failAt s "word too long"
  | fuel + 1, s =>
    let counted := s.head? = some '#' && (s.drop 1).head? ≠ some '\x7d'
    let start := if counted then s.drop 1 else s
    let name := parameterName true start
    let after := start.drop name.length
    if name = "" then failAt s "Bad substitution"
    else if counted then
      if after.head? = some '\x7d' then .ok (.parameter quoted name .length [], after.drop 1)
      else failAt s "Bad substitution"
    else if after.head? = some '\x7d' then .ok (.parameter quoted name .value [], after.drop 1)
    else
      match parameterUses.find? fun (mark, _) => after.startsWith mark.toList with
      | none =>
        failAt s (if after.chars.any (·.1 = '\x7d') then "Bad substitution" else "Missing '\x7d'")
      | some (mark, use) => do
        let (word, s) ← readParts (.braces quoted) fuel (after.drop mark.length)
        return (.parameter quoted name use word, s.drop 1)
termination_by structural fuel => fuel

end

/-- The number of steps that is enough to read on from a place. -/
def stepsFor (s : Source) : Nat :=
  4 * s.chars.length + 16

/-- Reads a word. -/
def readWord (s : Source) : Except SyntaxFault (Word × Source) :=
  readParts .bare (stepsFor s) s

/-- The characters of a word of which no part is quoted or expanded. -/
def plainText? : Word → Option (List Char)
  | [] => some []
  | .text false cs :: parts => (plainText? parts).map (cs ++ ·)
  | _ => none

/-- The characters of a word, if it is made of texts only, and whether one of them is quoted. -/
def literalText : Word → List Char × Bool
  | [] => ([], false)
  | .text quoted cs :: parts =>
    let (rest, anyQuoted) := literalText parts
    (cs ++ rest, quoted || anyQuoted)
  | _ :: parts => literalText parts

end StrongCyclic.Shell
