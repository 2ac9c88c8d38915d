import StrongCyclic.Text.Blank

/-!
Finding, cutting and replacing parts of a text. A pattern is found at its first place; the searches
from the end run on the reversed text.
-/

namespace StrongCyclic.Text

/-- What follows `pattern` at the start of the text. -/
def afterPrefixChars? : List Char → List Char → Option (List Char)
  | [], cs => some cs
  | _ :: _, [] => none
  | p :: ps, c :: cs => if p = c then afterPrefixChars? ps cs else none

/-- What follows `pattern` at the start of the text. -/
def afterPrefix? (pattern s : String) : Option String :=
  (afterPrefixChars? pattern.toList s.toList).map String.ofList

/-- What stands before `pattern` at the end of the text. -/
def beforeSuffix? (pattern s : String) : Option String :=
  (afterPrefixChars? pattern.toList.reverse s.toList.reverse).map fun cs =>
    String.ofList cs.reverse

/-- The text before and after the first occurrence of `pattern`. -/
def cutChars? (pattern : List Char) : List Char → Option (List Char × List Char)
  | [] => (afterPrefixChars? pattern []).map fun rest => ([], rest)
  | c :: cs =>
    match afterPrefixChars? pattern (c :: cs) with
    | some rest => some ([], rest)
    | none => (cutChars? pattern cs).map fun (before, after) => (c :: before, after)

/-- The text before and after the first occurrence of `pattern`. -/
def cutFirst? (pattern s : String) : Option (String × String) :=
  (cutChars? pattern.toList s.toList).map fun (before, after) =>
    (String.ofList before, String.ofList after)

/-- The text before and after the last occurrence of `pattern`. -/
def cutLast? (pattern s : String) : Option (String × String) :=
  (cutChars? pattern.toList.reverse s.toList.reverse).map fun (after, before) =>
    (String.ofList before.reverse, String.ofList after.reverse)

/-- Whether `pattern` occurs in the text. -/
def contains (pattern s : String) : Bool :=
  (cutChars? pattern.toList s.toList).isSome

/-- Replaces `pattern` from left to right by `new`; `skip` characters of a match are still to be
dropped. -/
def replaceChars (pattern new : List Char) : Nat → List Char → List Char
  | _, [] => []
  | skip + 1, _ :: cs => replaceChars pattern new skip cs
  | 0, c :: cs =>
    if (afterPrefixChars? pattern (c :: cs)).isSome then
      new ++ replaceChars pattern new (pattern.length - 1) cs
    else c :: replaceChars pattern new 0 cs

/-- Replaces every occurrence of a non-empty pattern, from left to right. -/
def replaceAll (pattern new s : String) : String :=
  String.ofList (replaceChars pattern.toList new.toList 0 s.toList)

/-- The text before the first occurrence of a character, or all of it. -/
def before (c : Char) (s : String) : String :=
  String.ofList (s.toList.takeWhile (· ≠ c))

end StrongCyclic.Text
