import StrongCyclic.Text.Numeral

/-!
The readings of plain scalars. A plain scalar is a text, but some texts also stand for null, a truth
value or a number. A text that has such a reading, or that some reader could give one, is quoted
when it is written.
-/

namespace StrongCyclic.Yaml

/-- Whether a plain scalar stands for null. -/
def isNull (text : String) : Bool :=
  ["null", "Null", "NULL", "~"].contains text

/-- The truth value that a plain scalar stands for. -/
def bool? (text : String) : Option Bool :=
  if ["true", "True", "TRUE"].contains text then some true
  else if ["false", "False", "FALSE"].contains text then some false
  else none

/-- The words that older readers take for truth values. -/
def oldBooleans : List String :=
  ["y", "Y", "yes", "Yes", "YES", "n", "N", "no", "No", "NO", "on", "On", "ON", "off", "Off", "OFF"]

/-- The value of a digit in bases up to sixteen. -/
def digitValue? (c : Char) : Option Nat :=
  if '0' ≤ c ∧ c ≤ '9' then some (c.toNat - '0'.toNat)
  else if 'a' ≤ c ∧ c ≤ 'f' then some (c.toNat - 'a'.toNat + 10)
  else if 'A' ≤ c ∧ c ≤ 'F' then some (c.toNat - 'A'.toNat + 10)
  else none

/-- The value of a non-empty run of digits in a base. -/
def baseValue? (base : Nat) (cs : List Char) : Option Nat :=
  if cs = [] then none
  else cs.foldl
    (fun value c => value.bind fun v =>
      ((digitValue? c).filter (· < base)).map fun d => base * v + d)
    (some 0)

/-- A text of digits that begins with a zero but is not zero itself is no number. -/
def hasLeadingZero (cs : List Char) : Bool :=
  1 < cs.length && cs.head? = some '0' && cs.all Char.isDigit

/-- A number in the base that is shown at its start, without a sign. -/
def magnitude? : List Char → Option Nat
  | '0' :: 'x' :: cs => baseValue? 16 cs
  | '0' :: 'o' :: cs => baseValue? 8 cs
  | '0' :: 'b' :: cs => baseValue? 2 cs
  | cs => if hasLeadingZero cs then none else baseValue? 10 cs

/-- The text without a plus sign at its start. -/
def dropPlus : List Char → List Char
  | '+' :: cs => cs
  | cs => cs

/-- The 64-bit number that a plain scalar stands for. -/
def natural? (text : String) : Option Nat :=
  Text.below? Text.wordLimit (magnitude? (dropPlus text.toList))

/-- The text without its sign. -/
def dropSign : List Char → List Char
  | '-' :: cs => cs
  | cs => dropPlus cs

/-- Whether a text is an integer of up to 128 bits, of which one is for the sign of a
negative one. -/
def isInteger (cs : List Char) : Bool :=
  match cs with
  | '-' :: cs => (magnitude? cs).any (· ≤ Nat.pow 2 127)
  | cs => (magnitude? (dropPlus cs)).any (· < Nat.pow 2 128)

/-- An exponent after its mark. -/
def exponent? : List Char → Option Int
  | '-' :: cs => (baseValue? 10 cs).map fun n => -(n : Int)
  | cs => (baseValue? 10 (dropPlus cs)).map fun n => (n : Int)

/-- The digits of a decimal number as a natural number and the power of ten that it is multiplied
by. -/
def decimal? (cs : List Char) : Option (Nat × Int) := do
  let whole := cs.takeWhile Char.isDigit
  let rest := cs.dropWhile Char.isDigit
  let afterPoint := if rest.head? = some '.' then rest.tail else []
  let fraction := afterPoint.takeWhile Char.isDigit
  let rest := if rest.head? = some '.' then afterPoint.dropWhile Char.isDigit else rest
  let mantissa ← baseValue? 10 (whole ++ fraction)
  match rest with
  | [] => some (mantissa, -(fraction.length : Int))
  | c :: cs =>
    if c = 'e' ∨ c = 'E' then (exponent? cs).map fun e => (mantissa, e - fraction.length) else none

/-- Whether `mantissa * 10 ^ power` is rounded to a finite double. -/
def isFinite (mantissa : Nat) (power : Int) : Bool :=
  let digits : Int := (toString mantissa).length
  if mantissa = 0 ∨ digits + power < 300 then true
  else if 400 < digits + power then false
  else
    let limit := Nat.pow 2 1024 - Nat.pow 2 970
    if 0 ≤ power then mantissa * Nat.pow 10 power.toNat < limit
    else mantissa < limit * Nat.pow 10 (-power).toNat

/-- Whether a text is a finite decimal number. -/
def isDecimal (cs : List Char) : Bool :=
  (decimal? (dropSign cs)).any fun (mantissa, power) => isFinite mantissa power

/-- The texts of the numbers that are not finite. -/
def extremes : List String :=
  [".inf", ".Inf", ".INF", "+.inf", "+.Inf", "+.INF", "-.inf", "-.Inf", "-.INF", ".nan", ".NaN",
    ".NAN"]

/-- Whether a text may be taken for something else than a text. -/
def isAmbiguous (text : String) : Bool :=
  let cs := text.toList
  text = "" || isNull text || (bool? text).isSome || oldBooleans.contains text ||
    extremes.contains text || isInteger cs || isDecimal cs || hasLeadingZero (dropSign cs)

end StrongCyclic.Yaml
