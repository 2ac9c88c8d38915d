import StrongCyclic.Text.Blank
import StrongCyclic.Text.Utf8

/-!
Texts that are printed with escapes and directives. A backslash starts an escape; a percent sign
starts a directive, which shows one argument. A format is used again as long as arguments are left.
-/

namespace StrongCyclic.Shell.Printing

/-- The bytes of a character. -/
def charBytes (c : Char) : List UInt8 :=
  Text.bytesOf (String.singleton c)

/-- The escapes with one letter. -/
def letterEscapes : List (Char × Nat) :=
  [('a', 7), ('b', 8), ('f', 12), ('n', 10), ('r', 13), ('t', 9), ('v', 11), ('\\', 92)]

/-- The digits of an octal number at the start, at most `count` of them. -/
def octalDigits (count : Nat) (cs : List Char) : List Char :=
  (cs.take count).takeWhile fun c => '0' ≤ c && c ≤ '7'

/-- The byte with octal digits. -/
def octalByte (digits : List Char) : UInt8 :=
  (digits.foldl (fun n c => 8 * n + (c.toNat - '0'.toNat)) 0).toUInt8

/-- Bytes, and whether nothing is to be printed after them. -/
abbrev Piece := List UInt8 × Bool

/-- The bytes of a text with the escapes of arguments: an octal number starts with zero, and `\c`
ends all printing. -/
def expandArgument : Nat → List Char → Piece
  | 0, _ => ([], false)
  | _, [] => ([], false)
  | fuel + 1, '\\' :: c :: cs =>
    let push (bytes : List UInt8) (rest : List Char) : Piece :=
      let (more, ends) := expandArgument fuel rest
      (bytes ++ more, ends)
    if c = 'c' then ([], true)
    else if c = '0' then
      let digits := octalDigits 3 cs
      push [octalByte digits] (cs.drop digits.length)
    else match letterEscapes.lookup c with
      | some n => push [n.toUInt8] cs
      | none => push (charBytes '\\' ++ charBytes c) cs
  | fuel + 1, c :: cs =>
    let (more, ends) := expandArgument fuel cs
    (charBytes c ++ more, ends)

/-- The bytes of a text with the escapes of arguments. -/
def ofArgument (text : String) : Piece :=
  expandArgument (text.length + 1) text.toList

/-- The words of a line with blanks between them; escapes are expanded. -/
def echo (words : List String) : List UInt8 :=
  let (words, hasEnd) := match words with
    | "-n" :: rest => (rest, false)
    | _ => (words, true)
  let (bytes, ends) := ofArgument (" ".intercalate words)
  if ends || !hasEnd then bytes else bytes ++ [10]

/-- How a directive shows its argument. -/
structure Directive where
  toLeft : Bool := false
  zeros : Bool := false
  sign : Bool := false
  width : Nat := 0
  precision : Option Nat := none
  conversion : Char
deriving Repr, Inhabited

/-- Fills a text up to the width of a directive. -/
def Directive.fill (d : Directive) (text : String) : String :=
  let missing := String.ofList (List.replicate (d.width - text.length) ' ')
  if d.toLeft then text ++ missing else missing ++ text

/-- The digits of a number in a base. -/
def digitsIn (base n : Nat) : String :=
  String.ofList (Nat.toDigits base n)

/-- The text of an integer in a directive. -/
def Directive.number (d : Directive) (n : Int) : String :=
  let digits := match d.conversion with
    | 'x' => digitsIn 16 n.natAbs
    | 'X' => (digitsIn 16 n.natAbs).toUpper
    | 'o' => digitsIn 8 n.natAbs
    | _ => toString n.natAbs
  let sign := if n < 0 then "-" else if d.sign then "+" else ""
  let zeros (count : Nat) : String := String.ofList (List.replicate count '0')
  match d.precision with
  | some p => d.fill (sign ++ zeros (p - digits.length) ++ digits)
  | none =>
    if d.zeros && !d.toLeft then sign ++ zeros (d.width - sign.length - digits.length) ++ digits
    else d.fill (sign ++ digits)

/-- The integer of an argument, and whether the whole argument is one. -/
def integerOf (text : String) : Int × Bool :=
  match text.toList with
  | '\'' :: c :: _ => (Int.ofNat c.toNat, true)
  | '"' :: c :: _ => (Int.ofNat c.toNat, true)
  | cs =>
    let cs := cs.dropWhile (· = ' ')
    let (negative, cs) := match cs with
      | '-' :: rest => (true, rest)
      | '+' :: rest => (false, rest)
      | _ => (false, cs)
    let (base, cs) := match cs with
      | '0' :: 'x' :: rest => (16, rest)
      | '0' :: 'X' :: rest => (16, rest)
      | '0' :: rest => (8, '0' :: rest)
      | _ => (10, cs)
    let digit? (c : Char) : Option Nat :=
      let value := if c.isDigit then c.toNat - '0'.toNat else c.toLower.toNat - 'a'.toNat + 10
      if c.isAlphanum && value < base then some value else none
    let digits := cs.takeWhile fun c => (digit? c).isSome
    let value := (digits.filterMap digit?).foldl (fun n d => base * n + d) 0
    (if negative then -Int.ofNat value else Int.ofNat value,
      !digits.isEmpty && digits.length = cs.length)

/-- What has been printed with a format. -/
structure Printed where
  bytes : List UInt8 := []
  /-- Messages about arguments and directives. -/
  messages : List String := []
  /-- The arguments that have not been shown. -/
  arguments : List String := []
  ends : Bool := false
deriving Inhabited

/-- Puts bytes in front. -/
def Printed.push (bytes : List UInt8) (p : Printed) : Printed :=
  { p with bytes := bytes ++ p.bytes }

/-- Reads the flags, the width and the precision of a directive, and its letter. -/
def directive? (cs : List Char) : Option (Directive × List Char) :=
  let flags := cs.takeWhile ['-', '+', ' ', '0', '#'].contains
  let cs := cs.drop flags.length
  let width := cs.takeWhile Char.isDigit
  let cs := cs.drop width.length
  let natOf (digits : List Char) : Nat := ((String.ofList digits).toNat?).getD 0
  let (precision, cs) := match cs with
    | '.' :: rest =>
      let digits := rest.takeWhile Char.isDigit
      (some (natOf digits), rest.drop digits.length)
    | _ => (none, cs)
  match cs with
  | [] => none
  | c :: rest =>
    some ({ toLeft := flags.contains '-', zeros := flags.contains '0', sign := flags.contains '+',
            width := natOf width, precision := precision, conversion := c }, rest)

/-- The bytes of a directive for an argument, and a message if it is no number. -/
def Directive.bytesFor (d : Directive) (argument : Option String) : Option (Piece × List String) :=
  let text := argument.getD ""
  let cut (text : String) : String := match d.precision with
    | some p => String.ofList (text.toList.take p)
    | none => text
  match d.conversion with
  | 's' => some ((Text.bytesOf (d.fill (cut text)), false), [])
  | 'c' => some ((Text.bytesOf (d.fill (String.ofList (text.toList.take 1))), false), [])
  | 'b' => some (ofArgument text, [])
  | 'd' | 'i' | 'u' | 'o' | 'x' | 'X' =>
    let (n, isWhole) := if text = "" then (0, argument.isNone) else integerOf text
    some ((Text.bytesOf (d.number n), false),
      if isWhole then [] else [text ++ ": expected numeric value"])
  | _ => none

/-- Prints arguments with a format once. -/
def onceWith : Nat → List Char → List String → Printed
  | 0, _, args => { arguments := args }
  | _, [], args => { arguments := args }
  | fuel + 1, '\\' :: c :: cs, args =>
    let digits := octalDigits 3 (c :: cs)
    if !digits.isEmpty then
      (onceWith fuel ((c :: cs).drop digits.length) args).push [octalByte digits]
    else match letterEscapes.lookup c with
      | some n => (onceWith fuel cs args).push [n.toUInt8]
      | none => (onceWith fuel (c :: cs) args).push (charBytes '\\')
  | fuel + 1, '%' :: '%' :: cs, args => (onceWith fuel cs args).push (charBytes '%')
  | fuel + 1, '%' :: cs, args =>
    match directive? cs with
    | none => { arguments := args, ends := true, messages := ["missing format character"] }
    | some (d, rest) =>
      match d.bytesFor args.head? with
      | none =>
        { ends := true
          messages :=
            ["%" ++ String.ofList (cs.take (cs.length - rest.length)) ++ ": invalid directive"] }
      | some ((bytes, true), messages) => { bytes, messages, ends := true }
      | some ((bytes, false), messages) =>
        let p := onceWith fuel rest args.tail
        { p with bytes := bytes ++ p.bytes, messages := messages ++ p.messages }
  | fuel + 1, c :: cs, args => (onceWith fuel cs args).push (charBytes c)

/-- Prints arguments with a format, which is used at most `times` times. -/
def timesWith : Nat → List Char → List String → Printed
  | 0, _, _ => {}
  | times + 1, format, args =>
    let p := onceWith (format.length + 1) format args
    if p.ends || p.arguments.isEmpty || p.arguments.length = args.length then p
    else
      let q := timesWith times format p.arguments
      { q with bytes := p.bytes ++ q.bytes, messages := p.messages ++ q.messages }

/-- Prints arguments with a format. -/
def format (format : String) (args : List String) : Printed :=
  timesWith (args.length + 1) format.toList args

end StrongCyclic.Shell.Printing
