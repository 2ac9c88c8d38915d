import StrongCyclic.Text.Json
import StrongCyclic.Yaml.Node
import StrongCyclic.Yaml.ScalarReader

/-!
Writing documents. Collections are laid out over lines, two blanks deeper than what they belong to,
except that the items of a sequence stand at the column of its key. A text is written plainly if it
reads back as the same text, else in single quotes; a text of several lines is written as a block,
and one with characters that cannot stand in a document in double quotes.
-/

namespace StrongCyclic.Yaml

/-- Whether a character ends a line in some reader. -/
def isLineEnd (c : Char) : Bool :=
  c = '\n' || c = '\r' || c.toNat == 0x85 || c.toNat == 0x2028 || c.toNat == 0x2029

/-- Whether a character is written as it is, outside of double quotes. -/
def isVisible (c : Char) : Bool :=
  let code := c.toNat
  c = '\n' || (0x20 ≤ code && code ≤ 0x7E) || (0xA0 ≤ code && code ≤ 0xFFFD && code ≠ 0xFEFF)

/-- The characters that no plain text begins with. -/
def indicators : List Char :=
  ['#', ',', '[', ']', '\x7b', '\x7d', '&', '*', '!', '|', '>', '\'', '"', '%', '@', '\x60']

/-- Whether a text begins with an indicator. -/
def startsWithIndicator : List Char → Bool
  | [] => false
  | c :: rest =>
    indicators.contains c ||
      ((c = '?' || c = ':' || c = '-') && (atGap rest || rest.head?.any isLineEnd))

/-- Whether a colon before a blank or a number sign after a blank stands in a text, behind its first
character. -/
def hasInnerIndicator : List Char → Bool
  | a :: b :: rest =>
    (b = ':' && (atGap rest || rest.head?.any isLineEnd)) ||
      (b = '#' && (isSpace a || isLineEnd a)) || hasInnerIndicator (b :: rest)
  | _ => false

/-- Whether a text can stand without quotes. -/
def isPlainSafe (cs : List Char) : Bool :=
  cs.all (fun c => isVisible c && !isLineEnd c) && cs.head? ≠ some ' ' && cs.getLast? ≠ some ' ' &&
    cs.take 3 ≠ ['-', '-', '-'] && cs.take 3 ≠ ['.', '.', '.'] && !startsWithIndicator cs &&
    !hasInnerIndicator cs

/-- Whether a blank stands before a line end. -/
def hasTrailingBlank : List Char → Bool
  | a :: b :: rest => (a = ' ' && isLineEnd b) || hasTrailingBlank (b :: rest)
  | [a] => a = ' '
  | [] => false

/-- A number in hexadecimal digits. -/
def hexText : Nat → Nat → List Char
  | 0, _ => []
  | places + 1, n => hexText places (n / 16) ++ [(Text.Json.hexDigit (n % 16)).toUpper]

/-- The characters with an escape of their own, by their names behind the backslash. -/
def writtenEscapes : List (Char × Char) :=
  [('\x00', '0'), ('\x07', 'a'), ('\x08', 'b'), ('\t', 't'), ('\n', 'n'), ('\x0b', 'v'),
    ('\x0c', 'f'), ('\r', 'r'), ('\x1b', 'e'), ('"', '"'), ('\\', '\\'), ('\x85', 'N'),
    ('\u2028', 'L'), ('\u2029', 'P')]

/-- A character in double quotes. -/
def escaped (c : Char) : List Char :=
  match writtenEscapes.lookup c with
  | some name => ['\\', name]
  | none =>
    if isVisible c then [c]
    else if c.toNat ≤ 0xFF then '\\' :: 'x' :: hexText 2 c.toNat
    else if c.toNat ≤ 0xFFFF then '\\' :: 'u' :: hexText 4 c.toNat
    else '\\' :: 'U' :: hexText 8 c.toNat

/-- A text in double quotes. -/
def doubleQuoted (cs : List Char) : String :=
  String.ofList ('"' :: cs.flatMap escaped ++ ['"'])

/-- A text in single quotes, which are doubled inside. -/
def singleQuoted (cs : List Char) : String :=
  String.ofList ('\'' :: cs.flatMap (fun c => if c = '\'' then ['\'', '\''] else [c]) ++ ['\''])

/-- The header of a text as a block. -/
def blockHeader (cs : List Char) : String :=
  let start := if cs.head?.any fun c => c = ' ' || isLineEnd c then "2" else ""
  let ending :=
    match cs.reverse with
    | a :: b :: _ => if !isLineEnd a then "-" else if isLineEnd b then "+" else ""
    | [a] => if isLineEnd a then "+" else "-"
    | [] => "-"
  "|" ++ start ++ ending

/-- The lines of a text as a block. -/
def blockLines (cs : List Char) : List String :=
  let lines := Text.splitWhere (· == '\n') cs
  (if cs.getLast? = some '\n' then lines.dropLast else lines).map String.ofList

/-- The lines of a text. -/
def textLines (text : String) : List String :=
  let cs := text.toList
  if cs.contains '\n' then
    if cs.all isVisible && !hasTrailingBlank cs then blockHeader cs :: blockLines cs
    else [doubleQuoted cs]
  else if !cs.all (fun c => isVisible c && !isLineEnd c) then [doubleQuoted cs]
  else if isAmbiguous text || !isPlainSafe cs then [singleQuoted cs]
  else [text]

/-- A line two blanks deeper. -/
def indented (line : String) : String :=
  if line = "" then "" else "  " ++ line

/-- Lines behind a mark, the later ones indented. -/
def behind (mark : String) : List String → List String
  | [] => [mark]
  | line :: lines => (mark ++ line) :: lines.map indented

/-- Lines with a tag in front. -/
def behindTag : Option String → List String → List String
  | some tag, line :: lines => ("!<" ++ tag ++ "> " ++ line) :: lines
  | _, lines => lines

mutual

/-- The lines of a node. -/
def Node.lines : Node → List String
  | .scalar tag plain text =>
    behindTag tag (if plain then [text] else textLines text)
  | .sequence [] => ["[]"]
  | .sequence (item :: items) => Node.itemLines (item :: items)
  | .mapping [] => ["\x7b\x7d"]
  | .mapping (entry :: entries) => Node.entryLines (entry :: entries)

/-- The lines of items. -/
def Node.itemLines : List Node → List String
  | [] => []
  | item :: items => behind "- " item.lines ++ Node.itemLines items

/-- The lines of entries. -/
def Node.entryLines : List (Node × Node) → List String
  | [] => []
  | (key, value) :: entries =>
    let name := "".intercalate key.lines
    let own := match value with
      | .sequence (_ :: _) => (name ++ ":") :: value.lines
      | .mapping (_ :: _) => (name ++ ":") :: value.lines.map indented
      | _ => behind (name ++ ": ") value.lines
    own ++ Node.entryLines entries

end

/-- The text of a document. -/
def Node.text (n : Node) : String :=
  Text.unlines n.lines

end StrongCyclic.Yaml
