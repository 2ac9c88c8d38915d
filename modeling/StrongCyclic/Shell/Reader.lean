import StrongCyclic.Shell.WordReader

/-!
Reading commands. Commands are read one line at a time, so that a script runs up to the first line
that cannot be read. A word is a keyword only where a command can start and if nothing in it is
quoted.
-/

namespace StrongCyclic.Shell

/-! ## Tokens -/

/-- Passes blanks, joined lines and a comment. -/
def skipBlankChars : Bool → List (Char × Nat) → List (Char × Nat)
  | _, [] => []
  | true, (c, n) :: rest => if c = '\n' then (c, n) :: rest else skipBlankChars true rest
  | false, ('\\', n) :: (c, n') :: rest =>
    if c = '\n' then skipBlankChars false rest else ('\\', n) :: (c, n') :: rest
  | false, (c, n) :: rest =>
    if c = ' ' ∨ c = '\t' then skipBlankChars false rest
    else if c = '#' then skipBlankChars true rest
    else (c, n) :: rest

/-- Passes blanks, joined lines and a comment. -/
def skipBlanks (s : Source) : Source :=
  { s with chars := skipBlankChars false s.chars }

/-- Passes blanks, comments and line ends, at most `fuel` lines of them. -/
def skipLinesFrom : Nat → Source → Source
  | 0, s => s
  | fuel + 1, s =>
    let s := skipBlanks s
    if s.head? = some '\n' then skipLinesFrom fuel (s.drop 1) else s

/-- Passes blanks, comments and line ends. -/
def skipLines (s : Source) : Source :=
  skipLinesFrom (s.chars.length + 1) s

/-- The words with a meaning of their own at the start of a command. -/
def keywords : List String :=
  ["!", "case", "do", "done", "elif", "else", "esac", "fi", "for", "if", "then", "until", "while",
    "\x7b", "\x7d"]

/-- The keyword at the start. -/
def keyword? (s : Source) : Option String :=
  let word := String.ofList (s.takeWhile (!isMeta ·))
  if keywords.contains word then some word else none

/-- The operators between commands, the longer ones first. -/
def operators : List String :=
  ["&&", "||", ";;", ";", "&", "|", "(", ")"]

/-- The operator at the start. -/
def operator? (s : Source) : Option String :=
  operators.find? fun text => s.startsWith text.toList

/-- The name of the token at the start. -/
def tokenName (s : Source) : String :=
  match s.head?, operator? s, keyword? s with
  | none, _, _ => "end of file"
  | some '\n', _, _ => "newline"
  | _, some text, _ => "\"" ++ text ++ "\""
  | _, _, some word => "\"" ++ word ++ "\""
  | some '<', _, _ => "redirection"
  | some '>', _, _ => "redirection"
  | _, _, _ => "word"

/-- The source behind a token, on whose line faults of the token are reported. -/
def behindToken (s : Source) : Source :=
  if s.head? = some '\n' then s.drop 1 else s

/-- Reports a token that cannot stand here. -/
def unexpected {α : Type} (s : Source) : Except SyntaxFault α :=
  failAt (behindToken s) (tokenName s ++ " unexpected")

/-- Reports a token in the place of another one. -/
def unexpectedFor {α : Type} (s : Source) (wanted : String) : Except SyntaxFault α :=
  failAt (behindToken s) (tokenName s ++ " unexpected (expecting \"" ++ wanted ++ "\")")

/-- Passes a keyword that has to be here. -/
def expectKeyword (word : String) (s : Source) : Except SyntaxFault Source :=
  let s := skipLines s
  if keyword? s = some word then .ok (s.drop word.length) else unexpectedFor s word

/-! ## Redirections -/

/-- The lines of a document up to its end mark, and what follows them. -/
def documentLines (mark : List Char) (dropTabs : Bool) : Nat → List (Char × Nat) →
    List (Char × Nat) × List (Char × Nat)
  | 0, chars => ([], chars)
  | fuel + 1, chars =>
    let line := chars.takeWhile (·.1 ≠ '\n')
    let rest := chars.drop line.length
    let shown := if dropTabs then line.dropWhile (·.1 = '\t') else line
    if shown.map Prod.fst = mark then ([], rest.drop 1)
    else match rest with
      | [] => (shown, [])
      | lineEnd :: rest =>
        let (lines, rest) := documentLines mark dropTabs fuel rest
        (shown ++ lineEnd :: lines, rest)

/-- Takes a document out of the source: it starts on the next line. -/
def takeDocument (mark : List Char) (dropTabs : Bool) (s : Source) : List (Char × Nat) × Source :=
  let line := s.chars.takeWhile (·.1 ≠ '\n')
  match s.chars.drop line.length with
  | [] => ([], s)
  | lineEnd :: rest =>
    let (text, rest) := documentLines mark dropTabs (rest.length + 1) rest
    (text, { s with chars := line ++ lineEnd :: rest })

/-- Reads a document behind its operator. -/
def readDocument (dropTabs : Bool) (s : Source) : Except SyntaxFault (RedirectKind × Source) := do
  let (word, s) ← readWord (skipBlanks s)
  let (mark, isQuoted) := literalText word
  let (text, s) := takeDocument mark dropTabs s
  if isQuoted then return (.document [.text true (text.map Prod.fst)], s)
  else
    let body : Source := ⟨text, s.line⟩
    let (parts, _) ← readParts .document (stepsFor body) body
    return (.document parts, s)

/-- Reads the word behind an operator. -/
def readOperand (make : Word → RedirectKind) (s : Source) :
    Except SyntaxFault (RedirectKind × Source) := do
  let s := skipBlanks s
  if s.head?.all isMeta then unexpected s
  else
    let (word, s) ← readWord s
    return (make word, s)

/-- Reads a redirection, which may start with the number of a stream. -/
def readRedirect? (s : Source) : Except SyntaxFault (Option (Redirect × Source)) := do
  let digits := s.takeWhile Char.isDigit
  let after := s.drop digits.length
  let stream (default : Nat) : Nat :=
    if digits.isEmpty then default else ((String.ofList digits).toNat?).getD default
  let finish (default : Nat) (result : RedirectKind × Source) : Option (Redirect × Source) :=
    some (⟨stream default, result.1⟩, result.2)
  if after.startsWith ['<', '<', '-'] then
    return finish 0 (← readDocument true (after.drop 3))
  else if after.startsWith ['<', '<'] then
    return finish 0 (← readDocument false (after.drop 2))
  else if after.startsWith ['<', '&'] then
    return finish 0 (← readOperand .duplicate (after.drop 2))
  else if after.startsWith ['<'] then
    return finish 0 (← readOperand .input (after.drop 1))
  else if after.startsWith ['>', '>'] then
    return finish 1 (← readOperand .append (after.drop 2))
  else if after.startsWith ['>', '&'] then
    return finish 1 (← readOperand .duplicate (after.drop 2))
  else if after.startsWith ['>', '|'] then
    return finish 1 (← readOperand .output (after.drop 2))
  else if after.startsWith ['>'] then
    return finish 1 (← readOperand .output (after.drop 1))
  else return none

/-- Reads redirections, at most `fuel` of them. -/
def readRedirects : Nat → Source → Except SyntaxFault (List Redirect × Source)
  | 0, s => .ok ([], s)
  | fuel + 1, s => do
    match ← readRedirect? (skipBlanks s) with
    | none => return ([], s)
    | some (redirect, s) =>
      let (redirects, s) ← readRedirects fuel s
      return (redirect :: redirects, s)

/-! ## Commands -/

/-- The name and the value of a word that is an assignment. -/
def assignment? : Word → Option (String × Word)
  | .text false cs :: parts =>
    let name := cs.takeWhile isNameChar
    match cs.drop name.length with
    | '=' :: rest =>
      if name.head?.any startsName then
        some (String.ofList name, if rest.isEmpty then parts else .text false rest :: parts)
      else none
    | _ => none
  | _ => none

/-- What has been read of a simple command. -/
structure SimpleParts where
  assignments : List (String × Word) := []
  words : List Word := []
  redirects : List Redirect := []

/-- Adds a word or an assignment. -/
def SimpleParts.push (p : SimpleParts) (word : Word) : SimpleParts :=
  match assignment? word with
  | some pair =>
    if p.words.isEmpty then { p with assignments := p.assignments ++ [pair] }
    else { p with words := p.words ++ [word] }
  | none => { p with words := p.words ++ [word] }

/-- The name of the function that a command starts to define. -/
def SimpleParts.functionName? (p : SimpleParts) (s : Source) : Option String :=
  match p.assignments, p.words, p.redirects with
  | [], [word], [] => if s.head? = some '(' then some (String.ofList (literalText word).1) else none
  | _, _, _ => none

/-- Reads the words and redirections of a simple command, or the name of a function up to its
opening parenthesis. -/
def readSimple : Nat → SimpleParts → Source → Except SyntaxFault (SimpleParts × Source)
  | 0, p, s => .ok (p, s)
  | fuel + 1, p, s => do
    let s := skipBlanks s
    match ← readRedirect? s with
    | some (redirect, s) => readSimple fuel { p with redirects := p.redirects ++ [redirect] } s
    | none =>
      if s.head?.all isMeta then return (p, s)
      else
        let (word, s) ← readWord s
        readSimple fuel (p.push word) s

/-- Reads words up to the end of a line, at most `fuel` of them. -/
def readWords : Nat → Source → Except SyntaxFault (List Word × Source)
  | 0, s => .ok ([], s)
  | fuel + 1, s => do
    let s := skipBlanks s
    if s.head?.all isMeta then return ([], s)
    else
      let (word, s) ← readWord s
      let (words, s) ← readWords fuel s
      return (word :: words, s)

/-- Reads the patterns of a branch, at most `fuel` of them. -/
def readPatterns : Nat → Source → Except SyntaxFault (List Word × Source)
  | 0, s => unexpectedFor s ")"
  | fuel + 1, s => do
    let s := skipBlanks s
    if s.head?.all isMeta then unexpectedFor s ")"
    else
      let (word, s) ← readWord s
      let s := skipBlanks s
      if s.head? = some '|' then
        let (words, s) ← readPatterns fuel (s.drop 1)
        return (word :: words, s)
      else if s.head? = some ')' then return ([word], s.drop 1)
      else unexpectedFor s ")"

/-- The positional parameters, which a loop without words goes through. -/
def positionalWord : Word := [.parameter true "@" .value []]

/-- Several commands as one. -/
def sequenceOf : List Command → Command
  | [command] => command
  | commands => .sequence commands

/-- The words that close a compound command or a part of one. -/
def closingWords : List String :=
  ["then", "do", "done", "elif", "else", "fi", "esac", "\x7d"]

mutual

/-- Reads a command. -/
def readCommand : Nat → Source → Except SyntaxFault (Command × Source)
  | 0, s => failAt s "command too long"
  | fuel + 1, s => do
    let s := skipBlanks s
    let close (make : List Redirect → Command) (s : Source) :
        Except SyntaxFault (Command × Source) := do
      let (redirects, s) ← readRedirects (stepsFor s) s
      return (make redirects, s)
    match keyword? s with
    | some "\x7b" =>
      let (body, s) ← readList fuel (s.drop 1)
      close (.group body) (← expectKeyword "\x7d" s)
    | some "if" =>
      let (make, s) ← readBranches fuel (s.drop 2)
      close make s
    | some "while" =>
      let (condition, body, s) ← readLoop fuel (s.drop 5)
      close (.loop true condition body) s
    | some "until" =>
      let (condition, body, s) ← readLoop fuel (s.drop 5)
      close (.loop false condition body) s
    | some "for" =>
      let (name, words, s) ← readEach (s.drop 3)
      let (body, s) ← readList fuel (← expectKeyword "do" s)
      close (.each name words body) (← expectKeyword "done" s)
    | some "case" =>
      let (word, s) ← readWord (skipBlanks (s.drop 4))
      let s := skipLines s
      if s.takeWhile (!isMeta ·) = ['i', 'n'] then
        let (branches, s) ← readSelect fuel (s.drop 2)
        close (.select word branches) s
      else unexpectedFor s "in"
    | some _ => unexpected s
    | none =>
      if s.head? = some '(' then
        let (body, s) ← readList fuel (s.drop 1)
        let s := skipLines s
        if s.head? = some ')' then close (.subshell body) (s.drop 1) else unexpectedFor s ")"
      else
        let (parts, after) ← readSimple (stepsFor s) {} s
        match parts.functionName? after with
        | some name =>
          let inside := skipBlanks (after.drop 1)
          if inside.head? = some ')' then
            let (body, s) ← readCommand fuel (skipLines (inside.drop 1))
            return (.define name body, s)
          else unexpectedFor inside ")"
        | none =>
          if parts.assignments.isEmpty && parts.words.isEmpty && parts.redirects.isEmpty then
            unexpected s
          else return (.simple s.line parts.assignments parts.words parts.redirects, after)
termination_by structural fuel => fuel

/-- Reads the head of a loop over words. -/
def readEach (s : Source) : Except SyntaxFault (String × List Word × Source) := do
  let s := skipBlanks s
  let name := String.ofList (s.takeWhile isNameChar)
  if !name.toList.head?.any startsName then failAt s "Bad for loop variable"
  else
    let s := skipLines (s.drop name.length)
    if s.takeWhile (!isMeta ·) = ['i', 'n'] then
      let (words, s) ← readWords (stepsFor s) (s.drop 2)
      let s := skipBlanks s
      if s.head? = some ';' ∨ s.head? = some '\n' then return (name, words, s.drop 1)
      else unexpected s
    else return (name, [positionalWord], if s.head? = some ';' then s.drop 1 else s)

/-- Reads the condition and the body of a loop. -/
def readLoop : Nat → Source → Except SyntaxFault (Command × Command × Source)
  | 0, s => failAt s "command too long"
  | fuel + 1, s => do
    let (condition, s) ← readList fuel s
    let (body, s) ← readList fuel (← expectKeyword "do" s)
    return (condition, body, ← expectKeyword "done" s)
termination_by structural fuel => fuel

/-- Reads the branches of a decision behind its first word. -/
def readBranches : Nat → Source → Except SyntaxFault ((List Redirect → Command) × Source)
  | 0, s => failAt s "command too long"
  | fuel + 1, s => do
    let (condition, s) ← readList fuel s
    let (yes, s) ← readList fuel (← expectKeyword "then" s)
    let s := skipLines s
    match keyword? s with
    | some "elif" =>
      let (make, s) ← readBranches fuel (s.drop 4)
      return (.branch condition yes (make []), s)
    | some "else" =>
      let (no, s) ← readList fuel (s.drop 4)
      return (.branch condition yes no, ← expectKeyword "fi" s)
    | _ => return (.branch condition yes .nothing, ← expectKeyword "fi" s)
termination_by structural fuel => fuel

/-- Reads the branches of a selection. -/
def readSelect : Nat → Source → Except SyntaxFault (List (List Word × Command) × Source)
  | 0, s => failAt s "command too long"
  | fuel + 1, s => do
    let s := skipLines s
    if keyword? s = some "esac" then return ([], s.drop 4)
    else
      let (patterns, s) ← readPatterns (stepsFor s) (if s.head? = some '(' then s.drop 1 else s)
      let s := skipLines s
      let (body, s) ←
        if s.startsWith [';', ';'] ∨ keyword? s = some "esac" then pure (.nothing, s)
        else readList fuel s
      let s := skipLines s
      if s.startsWith [';', ';'] then
        let (branches, s) ← readSelect fuel (s.drop 2)
        return ((patterns, body) :: branches, s)
      else if keyword? s = some "esac" then return ([(patterns, body)], s.drop 4)
      else unexpectedFor s ";;"
termination_by structural fuel => fuel

/-- Reads commands that are connected by pipes. -/
def readPipes : Nat → Source → Except SyntaxFault (List Command × Source)
  | 0, s => failAt s "command too long"
  | fuel + 1, s => do
    let (command, s) ← readCommand fuel s
    let s := skipBlanks s
    if operator? s = some "|" then
      let (commands, s) ← readPipes fuel (skipLines (s.drop 1))
      return (command :: commands, s)
    else return ([command], s)
termination_by structural fuel => fuel

/-- Reads a pipeline. -/
def readPipeline : Nat → Source → Except SyntaxFault (Command × Source)
  | 0, s => failAt s "command too long"
  | fuel + 1, s => do
    let s := skipBlanks s
    let negated := keyword? s == some "!"
    let (commands, s) ← readPipes fuel (if negated then s.drop 1 else s)
    match commands with
    | [command] => return (if negated then .pipeline true [command] else command, s)
    | _ => return (.pipeline negated commands, s)
termination_by structural fuel => fuel

/-- Reads the pipelines that follow on success or on failure of the ones before. -/
def readChain : Nat → Command → Source → Except SyntaxFault (Command × Source)
  | 0, _, s => failAt s "command too long"
  | fuel + 1, first, s => do
    let s := skipBlanks s
    match operator? s with
    | some "&&" =>
      let (second, s) ← readPipeline fuel (skipLines (s.drop 2))
      readChain fuel (.andThen first second) s
    | some "||" =>
      let (second, s) ← readPipeline fuel (skipLines (s.drop 2))
      readChain fuel (.orElse first second) s
    | _ => return (first, s)
termination_by structural fuel => fuel

/-- Reads commands on a line, or on several lines. -/
def readCommands (lines : Bool) : Nat → Source → Except SyntaxFault (List Command × Source)
  | 0, s => failAt s "command too long"
  | fuel + 1, s => do
    let (first, s) ← readPipeline fuel s
    let (command, s) ← readChain fuel first s
    let s := skipBlanks s
    let isBackground := operator? s = some "&"
    let command := if isBackground then Command.background command else command
    let isClosed := isBackground || operator? s = some ";"
    let next := if isClosed then s.drop 1 else s
    let after := if lines then skipLines next else skipBlanks next
    let hasEnded := isClosed || (lines && (skipBlanks next).head? = some '\n')
    if !hasEnded || after.head? = none || after.head? = some '\n' || after.head? = some ')' ||
        after.startsWith [';', ';'] || (keyword? after).any closingWords.contains then
      return ([command], if lines then after else next)
    else
      let (commands, s) ← readCommands lines fuel after
      return (command :: commands, s)
termination_by structural fuel => fuel

/-- Reads the commands of a compound command, on any number of lines. -/
def readList : Nat → Source → Except SyntaxFault (Command × Source)
  | 0, s => failAt s "command too long"
  | fuel + 1, s => do
    let s := skipLines s
    if s.chars.isEmpty then return (.nothing, s)
    else
      let (commands, s) ← readCommands true fuel s
      return (sequenceOf commands, s)
termination_by structural fuel => fuel

end

/-- Reads the commands of the next line that has some. -/
def readLine? (s : Source) : Except SyntaxFault (Option (Command × Source)) := do
  let s := skipLines s
  if s.chars.isEmpty then return none
  else
    let (commands, s) ← readCommands false (stepsFor s) s
    let s := skipBlanks s
    if s.head?.all (· = '\n') then return some (sequenceOf commands, s) else unexpected s

end StrongCyclic.Shell
