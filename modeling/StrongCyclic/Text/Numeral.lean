import StrongCyclic.Text.Blank

/-!
Reading decimal numbers. A natural number may carry a plus sign and leading zeros and has to fit
into 64 bits; an integer may carry either sign and has to fit into 64 bits in two's complement.
-/

namespace StrongCyclic.Text

/-- The number of 64-bit words: every natural number that is read lies below it. -/
def wordLimit : Nat := 18446744073709551616

/-- The value of a non-empty run of ASCII digits. -/
def digitsValue? (cs : List Char) : Option Nat :=
  if cs ≠ [] ∧ cs.all Char.isDigit then
    some (cs.foldl (fun value c => 10 * value + (c.toNat - 48)) 0)
  else none

/-- The value if it is below the limit. -/
def below? (limit : Nat) (value : Option Nat) : Option Nat :=
  value.filter (· < limit)

/-- A natural number below 2^64, after an optional plus sign. -/
def naturalOf? : List Char → Option Nat
  | '+' :: cs => below? wordLimit (digitsValue? cs)
  | cs => below? wordLimit (digitsValue? cs)

/-- A natural number below 2^64, after an optional plus sign. -/
def natural? (s : String) : Option Nat :=
  naturalOf? s.toList

/-- An integer from -2^63 to 2^63 - 1, after an optional sign. -/
def integerOf? : List Char → Option Int
  | '-' :: cs => (below? (wordLimit / 2 + 1) (digitsValue? cs)).map fun n => -(n : Int)
  | '+' :: cs => (below? (wordLimit / 2) (digitsValue? cs)).map fun n => (n : Int)
  | cs => (below? (wordLimit / 2) (digitsValue? cs)).map fun n => (n : Int)

/-- An integer from -2^63 to 2^63 - 1, after an optional sign. -/
def integer? (s : String) : Option Int :=
  integerOf? s.toList

end StrongCyclic.Text
