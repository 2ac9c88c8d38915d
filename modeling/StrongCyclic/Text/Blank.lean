/-!
Blank characters and the pieces they leave: trimmed texts, words and lines. Every splitter is built
on `splitWhere`, which cuts a text at the characters that satisfy a test and keeps empty pieces.
Blanks also fill the columns of a table, and a fault of a text belongs to one of its lines.
-/

namespace StrongCyclic

namespace Text

/-- The characters with the property White_Space. -/
def isBlank (c : Char) : Bool :=
  let code := c.toNat
  (9 ≤ code && code ≤ 13) || code == 0x20 || code == 0x85 || code == 0xA0 || code == 0x1680 ||
    (0x2000 ≤ code && code ≤ 0x200A) || code == 0x2028 || code == 0x2029 || code == 0x202F ||
    code == 0x205F || code == 0x3000

/-- The text without the blanks at its two ends. -/
def trimChars (cs : List Char) : List Char :=
  ((cs.dropWhile isBlank).reverse.dropWhile isBlank).reverse

/-- The text without the blanks at its two ends. -/
def trim (s : String) : String :=
  String.ofList (trimChars s.toList)

/-- The pieces between the characters that satisfy `p`; there is one more piece than cuts. -/
def splitWhere (p : Char → Bool) : List Char → List (List Char)
  | [] => [[]]
  | c :: cs =>
    if p c then [] :: splitWhere p cs
    else match splitWhere p cs with
      | [] => [[c]]
      | piece :: pieces => (c :: piece) :: pieces

theorem splitWhere_ne_nil (p : Char → Bool) (cs : List Char) : splitWhere p cs ≠ [] := by
  cases cs with
  | nil => simp [splitWhere]
  | cons c cs =>
    by_cases h : p c
    · simp [splitWhere, h]
    · simp only [splitWhere, h]
      cases splitWhere p cs <;> simp

/-- The maximal runs of characters that are not blank. -/
def wordChars (cs : List Char) : List (List Char) :=
  (splitWhere isBlank cs).filter (· ≠ [])

/-- The maximal runs of characters that are not blank. -/
def words (s : String) : List String :=
  (wordChars s.toList).map String.ofList

/-- A line without the carriage return that ends it. -/
def dropReturn (cs : List Char) : List Char :=
  if cs.getLast? = some '\r' then cs.dropLast else cs

/-- The lines of a text: each ends with a line feed, before which one carriage return is dropped.
What follows the last line feed is a line only if it is not empty, and is kept as it is. -/
def lineChars (cs : List Char) : List (List Char) :=
  let pieces := splitWhere (· == '\n') cs
  let rest := pieces.getLastD []
  pieces.dropLast.map dropReturn ++ if rest = [] then [] else [rest]

/-- The lines of a text. -/
def lines (s : String) : List String :=
  (lineChars s.toList).map String.ofList

/-- Each text followed by a line feed. -/
def unlines (texts : List String) : String :=
  String.join (texts.map (· ++ "\n"))

/-- The blanks that a text lacks in a column; a text that is wider than its column is not cut. -/
def filler (width : Nat) (s : String) : String :=
  String.ofList (List.replicate (width - s.length) ' ')

/-- A text at the left of a column. -/
def alignLeft (width : Nat) (s : String) : String :=
  s ++ filler width s

/-- A text at the right of a column. -/
def alignRight (width : Nat) (s : String) : String :=
  filler width s ++ s

end Text

/-- A fault with the number of its line, counted from one; zero stands for no line. -/
structure AtLine (φ : Type) where
  line : Nat
  fault : φ
deriving DecidableEq, Repr, Inhabited

end StrongCyclic
