import StrongCyclic.Disk.FileTree

/-!
Conditions of scripts: comparisons of texts and of integers and questions about files. A condition
of several words is taken apart at the words for "or", then at those for "and".
-/

namespace StrongCyclic.Shell.Condition

/-- Why a condition has no answer. -/
inductive Fault
  | unexpectedOperator (word : String)
  | illegalNumber (word : String)
  | argumentExpected
deriving DecidableEq, Repr, Inhabited

/-- The wording of a fault. -/
def Fault.message : Fault → String
  | unexpectedOperator word => word ++ ": unexpected operator"
  | illegalNumber word => "Illegal number: " ++ word
  | argumentExpected => "argument expected"

/-- The integer that a word stands for. -/
def integer (word : String) : Except Fault Int :=
  let trimmed := (word.toList.dropWhile (· = ' ')).reverse.dropWhile (· = ' ') |>.reverse
  let digitsOf (cs : List Char) : Option Nat :=
    if !cs.isEmpty && cs.all Char.isDigit then (String.ofList cs).toNat? else none
  match trimmed with
  | '-' :: cs => ((digitsOf cs).map fun n => -Int.ofNat n).elim (.error (.illegalNumber word)) .ok
  | '+' :: cs => ((digitsOf cs).map Int.ofNat).elim (.error (.illegalNumber word)) .ok
  | cs => ((digitsOf cs).map Int.ofNat).elim (.error (.illegalNumber word)) .ok

/-- The answer to a question about one word, if it is one. -/
def unary? (files : FileTree) (op word : String) : Option Bool :=
  let path : Path := ⟨word⟩
  match op with
  | "-n" => some (word ≠ "")
  | "-z" => some (word = "")
  | "-e" | "-r" | "-w" => some (files.exists? path)
  | "-f" => some (files.read path).isOk
  | "-d" => some (files.isDirectory path)
  | "-x" => some (files.isDirectory path)
  | "-s" =>
    match files.read path with
    | .ok text => some (text ≠ "")
    | .error _ => some (files.isDirectory path)
  | "-h" | "-L" | "-t" | "-p" | "-b" | "-c" | "-S" => some false
  | _ => none

/-- Compares two integers. -/
def compare (test : Int → Int → Bool) (a b : String) : Except Fault Bool := do
  return test (← integer a) (← integer b)

/-- The answer to a question about two words, if it is one. -/
def binary? (a op b : String) : Option (Except Fault Bool) :=
  match op with
  | "=" => some (.ok (a = b))
  | "!=" => some (.ok (a ≠ b))
  | "<" => some (.ok (a < b))
  | ">" => some (.ok (b < a))
  | "-eq" => some (compare (fun x y => x == y) a b)
  | "-ne" => some (compare (fun x y => x != y) a b)
  | "-lt" => some (compare (fun x y => x < y) a b)
  | "-le" => some (compare (fun x y => x ≤ y) a b)
  | "-gt" => some (compare (fun x y => y < x) a b)
  | "-ge" => some (compare (fun x y => y ≤ x) a b)
  | _ => none

/-- The words before and behind the first place of a word that is not at the start. -/
def splitAt? (word : String) (words : List String) : Option (List String × List String) :=
  let before := words.takeWhile (· ≠ word)
  match before, words.drop before.length with
  | _ :: _, _ :: after => some (before, after)
  | _, _ => none

/-- The answer to a condition, found in at most `fuel` steps. -/
def answer (files : FileTree) : Nat → List String → Except Fault Bool
  | 0, _ => .error .argumentExpected
  | _, [] => .ok false
  | _, [word] => .ok (word ≠ "")
  | fuel + 1, words =>
    match words with
    | ["!", word] => .ok (word = "")
    | [op, word] =>
      match unary? files op word with
      | some result => .ok result
      | none => .error (.unexpectedOperator op)
    | _ =>
      match words with
      | [a, op, b] =>
        match binary? a op b with
        | some result => result
        | none => longer fuel words
      | _ => longer fuel words
where
  /-- The answer to a condition that is made of others. -/
  longer (fuel : Nat) (words : List String) : Except Fault Bool :=
    match splitAt? "-o" words, splitAt? "-a" words, words with
    | some (first, second), _, _ => do
      let a ← answer files fuel first
      let b ← answer files fuel second
      return a || b
    | none, some (first, second), _ => do
      let a ← answer files fuel first
      let b ← answer files fuel second
      return a && b
    | none, none, "!" :: rest => do return !(← answer files fuel rest)
    | none, none, "(" :: rest =>
      if rest.getLast? = some ")" then answer files fuel rest.dropLast
      else .error (.unexpectedOperator "(")
    | none, none, word :: _ => .error (.unexpectedOperator word)
    | none, none, [] => .ok false

/-- The answer to a condition. -/
def holds (files : FileTree) (words : List String) : Except Fault Bool :=
  answer files (2 * words.length + 2) words

end StrongCyclic.Shell.Condition
