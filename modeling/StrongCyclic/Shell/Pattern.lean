/-!
Patterns of characters: a star stands for any text, a question mark for any character and brackets
for one of several characters. A quoted character stands for itself.
-/

namespace StrongCyclic.Shell

/-- A character of a word that has been expanded, and whether it was quoted. -/
abbrev Marked := Char × Bool

/-- A part of a pattern. -/
inductive Glob
  | char (c : Char)
  | one
  | many
  | among (negated : Bool) (ranges : List (Char × Char))
deriving DecidableEq, Repr, Inhabited

namespace Glob

/-- The ranges between brackets. -/
def ranges : List Char → List (Char × Char)
  | a :: '-' :: b :: rest => (a, b) :: ranges rest
  | a :: rest => (a, a) :: ranges rest
  | [] => []

/-- The characters between brackets, and what follows them; a bracket at the start counts as one of
the characters. -/
def brackets? (cs : List Marked) : Option (List Char × List Marked) :=
  let body := cs.drop 1
  let inside := body.takeWhile fun (c, quoted) => c ≠ ']' || quoted
  match cs, body.drop inside.length with
  | first :: _, _ :: rest => some ((first :: inside).map Prod.fst, rest)
  | _, _ => none

/-- The pattern of a word, read in at most `fuel` parts. -/
def ofMarked : Nat → List Marked → List Glob
  | 0, _ => []
  | _, [] => []
  | fuel + 1, (c, quoted) :: rest =>
    if quoted then .char c :: ofMarked fuel rest
    else if c = '*' then .many :: ofMarked fuel rest
    else if c = '?' then .one :: ofMarked fuel rest
    else if c = '[' then
      match brackets? rest with
      | some (inside, after) =>
        let negated := inside.head?.any ['!', '^'].contains
        .among negated (ranges (if negated then inside.tail else inside)) :: ofMarked fuel after
      | none => .char c :: ofMarked fuel rest
    else .char c :: ofMarked fuel rest

/-- A text and its ends. -/
def ends : List Char → List (List Char)
  | [] => [[]]
  | c :: cs => (c :: cs) :: ends cs

/-- Whether a pattern stands for a text. -/
def accepts : List Glob → List Char → Bool
  | [], cs => cs.isEmpty
  | .many :: ps, cs => (ends cs).any fun rest => accepts ps rest
  | .one :: ps, _ :: cs => accepts ps cs
  | .char p :: ps, c :: cs => p = c && accepts ps cs
  | .among negated ranges :: ps, c :: cs =>
    ((ranges.any fun (a, b) => a ≤ c && c ≤ b) != negated) && accepts ps cs
  | _ :: _, [] => false

end Glob

/-- The pattern of a word. -/
def patternOf (cs : List Marked) : List Glob :=
  Glob.ofMarked cs.length cs

/-- Whether a word has a part that stands for several texts. -/
def isPattern (cs : List Marked) : Bool :=
  cs.any fun (c, quoted) => !quoted && ['*', '?', '['].contains c

/-- The text without its longest or shortest start that a pattern stands for. -/
def dropStart (pattern : List Glob) (longest : Bool) (cs : List Char) : List Char :=
  let counts := (List.range (cs.length + 1)).filter fun n => Glob.accepts pattern (cs.take n)
  match if longest then counts.getLast? else counts.head? with
  | some n => cs.drop n
  | none => cs

/-- The text without its longest or shortest end that a pattern stands for. -/
def dropEnd (pattern : List Glob) (longest : Bool) (cs : List Char) : List Char :=
  let counts := (List.range (cs.length + 1)).filter fun n => Glob.accepts pattern (cs.drop n)
  match if longest then counts.head? else counts.getLast? with
  | some n => cs.take n
  | none => cs

end StrongCyclic.Shell
