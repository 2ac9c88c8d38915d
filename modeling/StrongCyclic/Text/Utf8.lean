/-!
Texts as bytes. Bytes that are no text are replaced: each longest piece of a character that cannot
be completed, and each byte that cannot start one, becomes one replacement character.
-/

namespace StrongCyclic.Text

/-- The bytes of a text. -/
def bytesOf (s : String) : List UInt8 :=
  s.toUTF8.toList

/-- The character in the place of bytes that are no text. -/
def replacement : Char := '\ufffd'

/-- The number of bytes after the first one of a character, and the bytes that can come next. -/
def lead? (b : UInt8) : Option (Nat × UInt8 × UInt8) :=
  if 0xC2 ≤ b && b ≤ 0xDF then some (1, 0x80, 0xBF)
  else if b = 0xE0 then some (2, 0xA0, 0xBF)
  else if b = 0xED then some (2, 0x80, 0x9F)
  else if 0xE1 ≤ b && b ≤ 0xEF then some (2, 0x80, 0xBF)
  else if b = 0xF0 then some (3, 0x90, 0xBF)
  else if b = 0xF4 then some (3, 0x80, 0x8F)
  else if 0xF1 ≤ b && b ≤ 0xF3 then some (3, 0x80, 0xBF)
  else none

/-- The bits of the first byte of a character with `more` further bytes. -/
def leadBits (more : Nat) (b : UInt8) : Nat :=
  b.toNat % Nat.pow 2 (6 - more)

/-- Reads characters; `pending` is the part of a character so far, as its value, the number of bytes
that it lacks and the bytes that can come next. -/
def decodeFrom : Option (Nat × Nat × UInt8 × UInt8) → List UInt8 → List Char
  | none, [] => []
  | some _, [] => [replacement]
  | none, b :: bs =>
    if b < 0x80 then Char.ofNat b.toNat :: decodeFrom none bs
    else match lead? b with
      | some (more, low, high) => decodeFrom (some (leadBits more b, more, low, high)) bs
      | none => replacement :: decodeFrom none bs
  | some (value, lacking, low, high), b :: bs =>
    if low ≤ b && b ≤ high then
      let value := value * 64 + b.toNat % 64
      if lacking ≤ 1 then Char.ofNat value :: decodeFrom none bs
      else decodeFrom (some (value, lacking - 1, 0x80, 0xBF)) bs
    else if b < 0x80 then replacement :: Char.ofNat b.toNat :: decodeFrom none bs
    else match lead? b with
      | some (more, low, high) =>
        replacement :: decodeFrom (some (leadBits more b, more, low, high)) bs
      | none => replacement :: replacement :: decodeFrom none bs

/-- The text of bytes. -/
def ofBytes (bytes : List UInt8) : String :=
  String.ofList (decodeFrom none bytes)

end StrongCyclic.Text
