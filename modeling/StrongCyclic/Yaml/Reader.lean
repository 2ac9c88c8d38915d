import StrongCyclic.Yaml.ScalarReader

/-!
Reading documents. Between brackets the layout is free. Outside of them the column of a token
decides where it belongs: the entries of a collection start at one column, and what belongs to an
entry starts behind it. A key stands on one line with its colon. Every reader returns nothing if the
text has no document at the place.
-/

namespace StrongCyclic.Yaml

/-- The length that a key may have. -/
def keyLimit : Nat := 1024

/-- Whether the value of a key that started at `key` begins here: a colon on the same line. -/
def followsKey (key c : Cursor) : Bool :=
  c.line == key.line && c.column ≤ key.column + keyLimit && c.rest.head? = some ':'

/-- What may be written before a node: a tag and a name, each at most once. -/
structure Marks where
  tag : Option String := none
  name : Option String := none

/-- A node with its marks; from here on its name stands for it. -/
def Marks.apply (m : Marks) (n : Node) (c : Cursor) : Node × Cursor :=
  let n := m.tag.elim n n.withTag
  (n, m.name.elim c fun name => c.bind name n)

/-- The name after an ampersand or an asterisk. -/
def anchorName? (c : Cursor) : Option (String × Cursor) :=
  let (name, c) := c.next.takeWhile fun ch => ch.isAlphanum || ch = '-' || ch = '_'
  let ends := atGap c.rest || c.rest.head?.any [',', '?', ':', ']', '\x7d', '%', '@'].contains
  if name = [] ∨ !ends then none
  else some (String.ofList name, c)

/-- The node that has a name. -/
def alias? (c : Cursor) : Option (Node × Cursor) := do
  let (name, c) ← anchorName? c
  return (← c.anchors.lookup name, c)

/-- Whether a character may stand in a tag. -/
def isTagChar (c : Char) : Bool :=
  c.isAlphanum || "-_;/?:@&=+$.!~*'()".toList.contains c

/-- The tag that starts with an exclamation mark; a second one stands for the tags of this
language. -/
def tag? (c : Cursor) : Option (String × Cursor) :=
  let (tag, after) :=
    match c.rest with
    | _ :: '<' :: _ =>
      let (tag, after) :=
        (c.advance 2).takeWhile fun ch => isTagChar ch || [',', '[', ']'].contains ch
      if after.rest.head? = some '>' then (tag, after.next) else ([], after)
    | _ :: '!' :: _ =>
      let (tag, after) := (c.advance 2).takeWhile isTagChar
      (if tag = [] then [] else "tag:yaml.org,2002:".toList ++ tag, after)
    | _ =>
      let (tag, after) := c.next.takeWhile isTagChar
      (if tag.contains '!' then [] else '!' :: tag, after)
  if tag = [] ∨ !(atGap after.rest || after.rest.head? = some ',') then none
  else some (String.ofList tag, after)

/-- Reads a mark in addition to others. -/
def mark? (m : Marks) (c : Cursor) : Option (Marks × Cursor) :=
  if c.rest.head? = some '&' ∧ m.name = none then
    (anchorName? c).map fun (name, after) => ({ m with name := some name }, after)
  else if c.rest.head? = some '!' ∧ m.tag = none then
    (tag? c).map fun (tag, after) => ({ m with tag := some tag }, after)
  else none

/-- Whether a mark is here. -/
def isAtMark (c : Cursor) : Bool :=
  c.rest.head?.any ['&', '!'].contains

/-- Reads the marks on a line; what has a name of its own takes none. -/
def marks? (c : Cursor) : Option (Marks × Cursor) := do
  let (m, after) ← mark? {} c
  let next := after.skipSpaces
  let (m, after) ← if isAtMark next then mark? m next else some (m, after)
  if after.skipSpaces.rest.head? = some '*' then none else return (m, after)

mutual

/-- Reads a node between brackets. -/
def flowNode : Nat → Cursor → Option (Node × Cursor)
  | 0, _ => none
  | fuel + 1, c =>
    if c.isAtMarker ∨ c.isAt '-' then none
    else match c.rest with
      | [] => none
      | ch :: _ =>
        if ch = '[' then flowItems fuel [] c.next
        else if ch = '\x7b' then flowEntries fuel [] c.next
        else if ch = '*' then alias? c
        else if isAtMark c then do
          let (m, c) ← marks? c
          let c := c.skipGap true true
          if c.rest.head?.any [',', ']', '\x7d', ':'].contains then return m.apply .empty c
          else
            let (n, c) ← flowNode fuel c
            return m.apply n c
        else if ch = '\'' ∨ ch = '"' then quoted? (ch = '"') c
        else if startsPlain true c.rest then plain? true 0 c
        else none

/-- Reads the value after a colon between brackets. -/
def flowValue : Nat → Cursor → Option (Node × Cursor)
  | 0, _ => none
  | fuel + 1, c =>
    let c := c.skipGap true true
    if c.rest.head?.any [',', ']', '\x7d'].contains then some (.empty, c) else flowNode fuel c

/-- Reads the items of a sequence in brackets; an item may be a pair. -/
def flowItems : Nat → List Node → Cursor → Option (Node × Cursor)
  | 0, _, _ => none
  | fuel + 1, items, c =>
    let c := c.skipGap true true
    if c.rest.head? = some ']' then some (.sequence items, c.next)
    else do
      let (key, after) ← flowNode fuel c
      let after := after.skipGap true true
      let (item, after) ←
        if followsKey c after then
          (flowValue fuel after.next).map fun (n, after) => (Node.mapping [(key, n)], after)
        else some (key, after)
      let after := after.skipGap true true
      match after.rest.head? with
      | some ',' => flowItems fuel (items ++ [item]) after.next
      | some ']' => some (.sequence (items ++ [item]), after.next)
      | _ => none

/-- Reads the entries of a mapping in braces. -/
def flowEntries : Nat → List (Node × Node) → Cursor → Option (Node × Cursor)
  | 0, _, _ => none
  | fuel + 1, entries, c =>
    let c := c.skipGap true true
    if c.rest.head? = some '\x7d' then some (.mapping entries, c.next)
    else do
      let (key, after) ← flowNode fuel c
      let after := after.skipGap true true
      let (n, after) ←
        if followsKey c after then flowValue fuel after.next else some (Node.empty, after)
      let after := after.skipGap true true
      match after.rest.head? with
      | some ',' => flowEntries fuel (entries ++ [(key, n)]) after.next
      | some '\x7d' => some (.mapping (entries ++ [(key, n)]), after.next)
      | _ => none

end

/-- The number of steps that is enough to read on from a place. -/
def stepsFor (c : Cursor) : Nat :=
  3 * c.rest.length + 10

/-- Reads a node without layout: an alias, a collection in brackets, or a scalar. -/
def inlineNode (least : Nat) (c : Cursor) : Option (Node × Cursor) :=
  match c.rest with
  | [] => none
  | ch :: _ =>
    if ['[', '\x7b', '*', '\'', '"'].contains ch then flowNode (stepsFor c) c
    else if startsPlain false c.rest then plain? false least c
    else none

/-- Reads a node without layout that may have marks on the same line. -/
def markedInlineNode (least : Nat) (c : Cursor) : Option (Node × Cursor) :=
  if isAtMark c then do
    let (m, c) ← marks? c
    let (n, c) ← inlineNode least c.skipSpaces
    return m.apply n c
  else inlineNode least c

/-- Whether nothing that belongs behind column `least` stands here. -/
def isDone (least : Nat) (c : Cursor) : Bool :=
  c.rest = [] || c.isAtMarker || c.column < least

mutual

/-- Reads the node of an entry whose content starts at column `least` or behind it; `fresh` tells
whether an entry of a collection may start here. At the column of its key only a sequence
may start. -/
def blockNode (key : Option Nat) (fresh : Bool) (least : Nat) :
    Nat → Cursor → Option (Node × Cursor)
  | 0, _ => none
  | fuel + 1, c =>
    if fresh ∧ c.isAt '-' ∧ key = some c.column then blockItems c.column true fuel [] c
    else if isDone least c then some (.empty, c)
    else if c.isAt '-' then
      if fresh then blockItems c.column false fuel [] c else none
    else if c.rest.head? = some '|' ∨ c.rest.head? = some '>' then block? least c
    else if isAtMark c then do
      let (m, after) ← marks? c
      let after := after.skipGap false true
      if after.line = c.line ∧ !isDone least after then
        if after.rest.head? = some '|' ∨ after.rest.head? = some '>' then
          let (n, after) ← block? least after
          return m.apply n after
        else blockContent fresh least fuel c
      else
        let (n, after) ← blockNode key true least fuel after
        return m.apply n after
    else blockContent fresh least fuel c
termination_by structural fuel => fuel

/-- Reads a node that starts without layout: it may turn out to be the first key of a mapping. -/
def blockContent (fresh : Bool) (least : Nat) : Nat → Cursor → Option (Node × Cursor)
  | 0, _ => none
  | fuel + 1, c => do
    let (n, after) ← markedInlineNode least c
    let colon := after.skipSpaces
    if colon.isAt ':' then
      if fresh && followsKey c colon then blockEntries c.column fuel [] n colon else none
    else return (n, after)
termination_by structural fuel => fuel

/-- Reads the items of a sequence at a column from an indicator on. Where the value of a key is
expected, the sequence may stand at the column of the key and ends with the next key. -/
def blockItems (column : Nat) (atKey : Bool) : Nat → List Node → Cursor → Option (Node × Cursor)
  | 0, _, _ => none
  | fuel + 1, items, c => do
    let (item, after) ← blockNode none true (column + 1) fuel (c.next.skipGap false false)
    let items := items ++ [item]
    let after := after.skipGap false true
    if isDone column after then return (.sequence items, after)
    else if after.column ≠ column then none
    else if after.isAt '-' then blockItems column atKey fuel items after
    else if atKey then return (.sequence items, after)
    else none
termination_by structural fuel => fuel

/-- Reads the entries of a mapping at a column, from the colon of a key on. -/
def blockEntries (column : Nat) : Nat → List (Node × Node) → Node → Cursor → Option (Node × Cursor)
  | 0, _, _, _ => none
  | fuel + 1, entries, key, colon => do
    let c := colon.next.skipGap false true
    let (n, after) ← blockNode (some column) (c.line ≠ colon.line) (column + 1) fuel c
    let entries := entries ++ [(key, n)]
    let after := after.skipGap false true
    if isDone column after then return (.mapping entries, after)
    else if after.column ≠ column then none
    else
      let (key, colon) ← markedInlineNode (column + 1) after
      let colon := colon.skipSpaces
      if colon.isAt ':' && followsKey after colon then blockEntries column fuel entries key colon
      else none
termination_by structural fuel => fuel

end

/-- The text without the mark that tells the order of bytes. -/
def dropByteOrderMark : List Char → List Char
  | '\ufeff' :: cs => cs
  | cs => cs

/-- Whether nothing but the end of the only document follows. -/
def isAtEnd (c : Cursor) : Bool :=
  let c := if c.isAtLine '.' then (c.advance 3).skipGap false true else c
  c.rest = []

/-- Reads a document behind the mark at its start. -/
def markedDocument? (c : Cursor) : Option (Node × Cursor) :=
  let next := (c.advance 3).skipGap false true
  blockNode none (next.line ≠ c.line) 0 (stepsFor next) next

/-- The place behind the line that tells the version of the language. -/
def skipVersion? (c : Cursor) : Option Cursor :=
  let (line, c) := c.takeWhile (· ≠ '\n')
  let words := Text.words (String.ofList (line.takeWhile (· ≠ '#')))
  if words = ["%YAML", "1.1"] ∨ words = ["%YAML", "1.2"] then some (c.skipGap false false)
  else none

/-- Reads the only document of a text. -/
def read? (text : String) : Option Node :=
  let cs := dropByteOrderMark text.toList
  if !cs.all isPrintable then none
  else
    let c := (Cursor.start (unifyLineEnds cs)).skipGap false false
    if c.rest = [] then none
    else do
      let (n, c) ←
        if c.rest.head? = some '%' then do
          let c ← skipVersion? c
          if c.isAtLine '-' then markedDocument? c else none
        else if c.isAtLine '-' then markedDocument? c
        else blockNode none true 0 (stepsFor c) c
      if isAtEnd (c.skipGap false true) then some n else none

end StrongCyclic.Yaml
