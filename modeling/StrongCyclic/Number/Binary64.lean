/-!
Nonnegative binary floating-point numbers with 53 significant bits, and their decimal texts: the
shortest one that reads back, and the one with a fixed number of places. All arithmetic is exact, on
naturals; a quotient that has to be rounded goes to the nearest number, a tie to the even one.
-/

namespace StrongCyclic

/-- The natural number nearest to a quotient, the even one of two. -/
def roundHalfEven (num den : Nat) : Nat :=
  let floor := num / den
  let rest := num % den
  if 2 * rest < den then floor
  else if den < 2 * rest then floor + 1
  else if floor % 2 = 0 then floor else floor + 1

/-- The number `mantissa / 2 ^ shift`. -/
structure Binary64 where
  mantissa : Nat
  shift : Int
deriving DecidableEq, Repr, Inhabited

namespace Binary64

/-- The least mantissa of a number that is not zero. -/
def leastMantissa : Nat := 4503599627370496

/-- A power of two as the two sides of a quotient. -/
def shiftRatio (shift : Int) (num den : Nat) : Nat × Nat :=
  if 0 ≤ shift then (num * Nat.pow 2 shift.toNat, den)
  else (num, den * Nat.pow 2 (-shift).toNat)

/-- The number as a quotient. -/
def ratio (b : Binary64) : Nat × Nat :=
  shiftRatio (-b.shift) b.mantissa 1

/-- The shift that gives a quotient between two powers of two the right number of bits. -/
def shiftFor (num den : Nat) : Int :=
  let shift : Int := 52 - ((num.log2 : Int) - den.log2)
  let (num, den) := shiftRatio shift num den
  if num < leastMantissa * den then shift + 1 else shift

/-- The number nearest to a quotient. -/
def ofRatio (num den : Nat) : Binary64 :=
  if num = 0 then ⟨0, 0⟩
  else
    let shift := shiftFor num den
    let (num, den) := shiftRatio shift num den
    let mantissa := roundHalfEven num den
    if mantissa = 2 * leastMantissa then ⟨leastMantissa, shift - 1⟩ else ⟨mantissa, shift⟩

/-- The number nearest to a sum. -/
def add (a b : Binary64) : Binary64 :=
  let (n, d) := a.ratio
  let (n', d') := b.ratio
  ofRatio (n * d' + n' * d) (d * d')

/-- A number of units of `10 ^ -places`, in positional notation. -/
def placesText (places units : Nat) : String :=
  let one := Nat.pow 10 places
  let fraction := (toString (units % one)).toList
  if places = 0 then toString units
  else
    toString (units / one) ++ "." ++
      String.ofList (List.replicate (places - fraction.length) '0' ++ fraction)

/-- The text with a fixed number of places. -/
def fixedText (places : Nat) (b : Binary64) : String :=
  let (num, den) := b.ratio
  placesText places (roundHalfEven (num * Nat.pow 10 places) den)

/-- The multiple of `10 ^ power` that is nearest to the number among those that read back as it. The
numbers that do lie between the midpoints to the two neighbours, which count if the mantissa is
even. -/
def onGrid? (b : Binary64) (power : Int) : Option Nat :=
  let gap := if b.mantissa = leastMantissa then 1 else 2
  let (_, den) := shiftRatio (-(b.shift + 2)) 1 1
  let (scale, _) := shiftRatio (-(b.shift + 2)) 1 1
  let up := Nat.pow 10 (-power).toNat
  let unit := den * Nat.pow 10 power.toNat
  let value := 4 * b.mantissa * scale * up
  let low := (4 * b.mantissa - gap) * scale * up
  let high := (4 * b.mantissa + 2) * scale * up
  let readsBack (units : Nat) : Bool :=
    if b.mantissa % 2 = 0 then low ≤ units * unit && units * unit ≤ high
    else low < units * unit && units * unit < high
  let below := value / unit
  let above := below + 1
  match readsBack below, readsBack above with
  | true, true => some (if value - below * unit ≤ above * unit - value then below else above)
  | true, false => some below
  | false, true => some above
  | false, false => none

/-- The first of the grids from `10 ^ power` down that holds a number that reads back. -/
def shortestFrom (b : Binary64) (power : Int) : Nat → Option (Nat × Int)
  | 0 => none
  | rounds + 1 =>
    match b.onGrid? power with
    | some units => some (units, power)
    | none => shortestFrom b (power - 1) rounds

/-- The shortest text that reads back, in positional notation. -/
def shortestText (b : Binary64) : String :=
  if b.mantissa = 0 then "0"
  else match b.shortestFrom 330 700 with
    | some (units, power) =>
      if 0 ≤ power then toString (units * Nat.pow 10 power.toNat)
      else placesText (-power).toNat units
    | none => ""

end Binary64

end StrongCyclic
