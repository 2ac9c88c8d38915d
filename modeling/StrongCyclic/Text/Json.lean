/-!
JSON texts laid out over several lines. A value is a text that starts where it stands; the items of
an object or array are indented by two blanks more than the brackets around them.
-/

namespace StrongCyclic.Text.Json

/-- A hexadecimal digit in lower case. -/
def hexDigit (n : Nat) : Char :=
  (['0', '1', '2', '3', '4', '5', '6', '7', '8', '9', 'a', 'b', 'c', 'd', 'e', 'f'].getD n '0')

/-- A character inside of a string: quotes, backslashes and control characters are escaped. -/
def escaped (c : Char) : List Char :=
  if c = '"' then ['\\', '"']
  else if c = '\\' then ['\\', '\\']
  else if c = '\n' then ['\\', 'n']
  else if c = '\r' then ['\\', 'r']
  else if c = '\t' then ['\\', 't']
  else if c.toNat = 8 then ['\\', 'b']
  else if c.toNat = 12 then ['\\', 'f']
  else if c.toNat < 32 then
    ['\\', 'u', '0', '0', hexDigit (c.toNat / 16), hexDigit (c.toNat % 16)]
  else [c]

/-- A string. -/
def string (s : String) : String :=
  String.ofList ('"' :: s.toList.flatMap escaped ++ ['"'])

/-- Items between brackets, one on each line. -/
def bracketed (opening closing indent : String) (items : List String) : String :=
  if items = [] then opening ++ closing
  else
    opening ++ "\n" ++ ",\n".intercalate (items.map fun item => indent ++ "  " ++ item) ++ "\n" ++
      indent ++ closing

/-- An array of values. -/
def array (indent : String) (values : List String) : String :=
  bracketed "[" "]" indent values

/-- An object with fields. -/
def object (indent : String) (fields : List (String × String)) : String :=
  bracketed "\x7b" "\x7d" indent (fields.map fun (name, value) => string name ++ ": " ++ value)

end StrongCyclic.Text.Json
