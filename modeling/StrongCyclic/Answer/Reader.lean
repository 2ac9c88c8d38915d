import StrongCyclic.Answer.Term
import StrongCyclic.Text.Letter
import StrongCyclic.Text.Numeral

/-!
Reading terms and atoms. The readers are greedy and return what is left of the text. Blanks are
allowed only around an atom and inside of quoted strings.
-/

namespace StrongCyclic

namespace Term

/-- The characters that start a name. -/
def startsName (c : Char) : Bool :=
  Text.isLetter c || c == '_'

/-- The characters that continue a name. -/
def continuesName (c : Char) : Bool :=
  Text.isLetterOrNumeral c || c == '_' || c == '\''

/-- The rest of a quoted string after its opening quote; a backslash makes the next character stand
for itself. -/
def readQuoted : List Char → Option (List Char × List Char)
  | [] => none
  | '"' :: rest => some ([], rest)
  | '\\' :: c :: rest => (readQuoted rest).map fun (text, rest) => (c :: text, rest)
  | '\\' :: [] => none
  | c :: rest => (readQuoted rest).map fun (text, rest) => (c :: text, rest)

/-- An optional minus sign and the digits that follow. -/
def readInteger (cs : List Char) : Option (Int × List Char) :=
  let sign := cs.takeWhile (· == '-') |>.take 1
  let unsigned := cs.drop sign.length
  (Text.integerOf? (sign ++ unsigned.takeWhile Char.isDigit)).map fun value =>
    (value, unsigned.dropWhile Char.isDigit)

mutual

/-- Reads one term; `depth` bounds the number of nested readings. -/
def read : Nat → List Char → Option (Term × List Char)
  | 0, _ => none
  | _ + 1, [] => none
  | depth + 1, c :: rest =>
    if c = '"' then
      (readQuoted rest).map fun (text, rest) => (.str (String.ofList text), rest)
    else if c = '-' ∨ c.isDigit then
      (readInteger (c :: rest)).map fun (value, rest) => (.int value, rest)
    else if c = '(' then
      (readArgs depth rest).map fun (args, rest) => (.func "" args, rest)
    else if startsName c then
      let name := String.ofList (c :: rest.takeWhile continuesName)
      match rest.dropWhile continuesName with
      | '(' :: rest => (readArgs depth rest).map fun (args, rest) => (.func name args, rest)
      | rest => some (.sym name, rest)
    else none

/-- Reads what follows an opening bracket. -/
def readArgs : Nat → List Char → Option (List Term × List Char)
  | 0, _ => none
  | _ + 1, ')' :: rest => some ([], rest)
  | depth + 1, cs => readList depth cs

/-- Reads the terms up to a closing bracket. -/
def readList : Nat → List Char → Option (List Term × List Char)
  | 0, _ => none
  | depth + 1, cs =>
    match read depth cs with
    | some (t, ')' :: rest) => some ([t], rest)
    | some (t, ',' :: rest) => (readList depth rest).map fun (ts, rest) => (t :: ts, rest)
    | _ => none

end

/-- The term that a whole text stands for. A bracket costs three nested readings and a comma one, so
three for each character are enough. -/
def ofChars? (cs : List Char) : Option Term :=
  match read (3 * (cs.length + 1)) cs with
  | some (t, []) => some t
  | _ => none

end Term

/-- The atom that a text stands for, apart from blanks at its ends. A number, a string or a tuple is
no atom. -/
def Atom.parse? (text : String) : Option Atom :=
  match Term.ofChars? (Text.trimChars text.toList) with
  | some (.func name args) => if name = "" then none else some ⟨name, args⟩
  | some (.sym name) => some ⟨name, []⟩
  | _ => none

end StrongCyclic
