/-!
Arithmetic in scripts on words of 64 bits. Operators of one level associate to the left; a comparison
is one or zero. A name stands for the number that its value spells, and for zero without one; it can be
given a value on the way. What the left side of a logical operator or a condition rules out is read but
has no effect.
-/

namespace StrongCyclic.Shell.Arithmetic

/-- Why an expression has no value. -/
inductive Fault
  | divisionByZero
  | operandExpected
  | endExpected
  | parenthesisExpected
  | colonExpected
  /-- The value of a name that spells no number. -/
  | illegalNumber (text : String)
deriving DecidableEq, Repr, Inhabited

/-- The wording of a fault in an expression. -/
def Fault.message (expression : String) : Fault → String
  | illegalNumber text => "Illegal number: " ++ text
  | divisionByZero => inExpression "division by zero"
  | operandExpected => inExpression "expecting primary"
  | endExpected => inExpression "expecting EOF"
  | parenthesisExpected => inExpression "expecting ')'"
  | colonExpected => inExpression "expecting ':'"
where
  /-- A wording that shows the expression. -/
  inExpression (text : String) : String :=
    "arithmetic expression: " ++ text ++ ": \"" ++ expression ++ "\""

/-! ## Numbers -/

/-- The value of a digit. -/
def digitValue (c : Char) : Nat :=
  if c.isDigit then c.toNat - '0'.toNat else c.toLower.toNat - 'a'.toNat + 10

/-- Whether a character is a digit in a base. -/
def isDigitIn (base : Nat) (c : Char) : Bool :=
  c.isAlphanum && digitValue c < base

/-- The value of the digits in front and what follows them. -/
def digitsIn (base : Nat) (cs : List Char) : Nat × List Char :=
  ((cs.takeWhile (isDigitIn base)).foldl (fun n c => base * n + digitValue c) 0,
    cs.dropWhile (isDigitIn base))

/-- The number in front, in the base that its start shows, and what follows it. -/
def numberInFront : List Char → Nat × List Char
  | '0' :: x :: c :: cs =>
    if (x = 'x' || x = 'X') && isDigitIn 16 c then digitsIn 16 (c :: cs)
    else digitsIn 8 ('0' :: x :: c :: cs)
  | '0' :: cs => digitsIn 8 ('0' :: cs)
  | cs => digitsIn 10 cs

/-- The largest word. -/
def largest : Nat := 9223372036854775807

/-- Whether a character may stand around a number. -/
def isBlank (c : Char) : Bool :=
  c = ' ' || ('\t' ≤ c && c ≤ '\r')

/-- The number that the value of a name spells; blanks alone spell zero. -/
def valueOf (text : String) : Except Fault Int64 :=
  let cs := text.toList.dropWhile isBlank
  let digits := if cs.head? = some '-' || cs.head? = some '+' then cs.tail else cs
  let isNegative := cs.head? = some '-'
  let (n, rest) := numberInFront digits
  let isSpelled := cs = [] || digits.head?.any Char.isDigit
  if !isSpelled || !rest.all isBlank || largest + (if isNegative then 1 else 0) < n then
    .error (.illegalNumber text)
  else .ok (if isNegative then -Int64.ofNat n else Int64.ofNat n)

/-! ## Tokens -/

/-- A token of an expression. -/
inductive Token
  | number (n : Int64)
  | name (text : String)
  | op (text : String)
  /-- A character that begins no token. -/
  | stray
deriving DecidableEq, Repr, Inhabited

/-- The operators, the longer ones first. -/
def operators : List String :=
  ["<<=", ">>=", "<<", ">>", "<=", ">=", "==", "!=", "&&", "||", "+=", "-=", "*=", "/=", "%=", "&=",
    "^=", "|=", "+", "-", "*", "/", "%", "<", ">", "!", "~", "&", "^", "|", "?", ":", "(", ")", "="]

/-- The tokens of an expression, at most `fuel` of them. -/
def tokens : Nat → List Char → List Token
  | 0, _ => []
  | _, [] => []
  | fuel + 1, c :: cs =>
    if c = ' ' ∨ c = '\t' ∨ c = '\n' then tokens fuel cs
    else if c.isDigit then
      let (n, rest) := numberInFront (c :: cs)
      .number (Int64.ofNat (min n largest)) :: tokens fuel rest
    else if c.isAlpha ∨ c = '_' then
      let name := (c :: cs).takeWhile fun c => c.isAlphanum || c = '_'
      .name (String.ofList name) :: tokens fuel ((c :: cs).drop name.length)
    else match operators.find? fun text => (c :: cs).take text.length = text.toList with
      | some text => .op text :: tokens fuel ((c :: cs).drop text.length)
      | none => .stray :: tokens fuel cs

/-! ## Values -/

/-- What is left to read, and the values that names have been given, the last one first. -/
structure Progress where
  rest : List Token
  assigned : List (String × Int64) := []

/-- A part of an evaluation. -/
abbrev Evaluation (α : Type) := StateT Progress (Except Fault) α

/-- Goes on behind the next `n` tokens. -/
def skip (n : Nat) : Evaluation Unit :=
  modify fun p => { p with rest := p.rest.drop n }

/-- The next operator. -/
def nextOperator : Evaluation (Option String) := do
  match (← get).rest with
  | .op text :: _ => return some text
  | _ => return none

/-- Goes on behind an operator that has to be there. -/
def expect (text : String) (fault : Fault) : Evaluation Unit := do
  if (← nextOperator) = some text then skip 1 else throw fault

/-- The number that a name stands for. -/
def nameValue (outer : String → String) (name : String) : Evaluation Int64 := do
  match (← get).assigned.lookup name with
  | some n => return n
  | none => valueOf (outer name)

/-- One for a condition that holds, else zero. -/
def truth (b : Bool) : Int64 :=
  if b then 1 else 0

/-- The levels of the operators between two operands, from the loosest to the tightest. -/
def levels : List (List String) :=
  [["|"], ["^"], ["&"], ["==", "!="], ["<", ">", "<=", ">="], ["<<", ">>"], ["+", "-"],
    ["*", "/", "%"]]

/-- The result of an operator. Only the lower six bits of the length of a shift count. -/
def apply (op : String) (a b : Int64) : Except Fault Int64 :=
  match op with
  | "==" => .ok (truth (a == b))
  | "!=" => .ok (truth (a != b))
  | "<" => .ok (truth (a < b))
  | ">" => .ok (truth (b < a))
  | "<=" => .ok (truth (a ≤ b))
  | ">=" => .ok (truth (b ≤ a))
  | "<<" => .ok (a <<< b)
  | ">>" => .ok (a >>> b)
  | "+" => .ok (a + b)
  | "-" => .ok (a - b)
  | "*" => .ok (a * b)
  | "/" => if b = 0 then .error .divisionByZero else .ok (a / b)
  | "%" => if b = 0 then .error .divisionByZero else .ok (a % b)
  | "&" => .ok (a &&& b)
  | "|" => .ok (a ||| b)
  | "^" => .ok (a ^^^ b)
  | _ => .error .operandExpected

/-- The operator that an assignment applies first: none for the plain one. -/
def assignment? (op : String) : Option (Option String) :=
  if op = "=" then some none
  else (["<<", ">>", "+", "-", "*", "/", "%", "&", "^", "|"].find? (· ++ "=" = op)).map some

mutual

/-- The value of an operand with the signs in front of it. -/
def operand (outer : String → String) (active : Bool) : Nat → Evaluation Int64
  | 0 => throw .operandExpected
  | fuel + 1 => do
    match (← get).rest with
    | .number n :: _ => skip 1; return n
    | .name name :: _ => skip 1; if active then nameValue outer name else return 0
    | .op "-" :: _ => skip 1; return -(← operand outer active fuel)
    | .op "+" :: _ => skip 1; operand outer active fuel
    | .op "!" :: _ => skip 1; return truth ((← operand outer active fuel) == 0)
    | .op "~" :: _ => skip 1; return ~~~(← operand outer active fuel)
    | .op "(" :: _ =>
      skip 1
      let n ← assignment outer active fuel
      expect ")" .parenthesisExpected
      return n
    | _ => throw .operandExpected
termination_by structural fuel => fuel

/-- The value of an expression with operators of the given levels. -/
def level (outer : String → String) (active : Bool) : Nat → List (List String) → Evaluation Int64
  | 0, _ => throw .operandExpected
  | fuel + 1, [] => operand outer active fuel
  | fuel + 1, ops :: tighter => do
    chain outer active fuel ops tighter (← level outer active fuel tighter)
termination_by structural fuel => fuel

/-- The value of operands of one level from the left. -/
def chain (outer : String → String) (active : Bool) :
    Nat → List String → List (List String) → Int64 → Evaluation Int64
  | 0, _, _, _ => throw .operandExpected
  | fuel + 1, ops, tighter, a => do
    match ← nextOperator with
    | some op =>
      if ops.contains op then
        skip 1
        let b ← level outer active fuel tighter
        chain outer active fuel ops tighter (← if active then apply op a b else pure b)
      else return a
    | none => return a
termination_by structural fuel => fuel

/-- The value of a conjunction. -/
def conjunction (outer : String → String) (active : Bool) : Nat → Evaluation Int64
  | 0 => throw .operandExpected
  | fuel + 1 => do
    let a ← level outer active fuel levels
    if (← nextOperator) = some "&&" then
      skip 1
      let b ← conjunction outer (active && a != 0) fuel
      return truth (a != 0 && b != 0)
    else return a
termination_by structural fuel => fuel

/-- The value of a disjunction. -/
def disjunction (outer : String → String) (active : Bool) : Nat → Evaluation Int64
  | 0 => throw .operandExpected
  | fuel + 1 => do
    let a ← conjunction outer active fuel
    if (← nextOperator) = some "||" then
      skip 1
      let b ← disjunction outer (active && a == 0) fuel
      return truth (a != 0 || b != 0)
    else return a
termination_by structural fuel => fuel

/-- The value of an expression that may choose between two others. -/
def choice (outer : String → String) (active : Bool) : Nat → Evaluation Int64
  | 0 => throw .operandExpected
  | fuel + 1 => do
    let a ← disjunction outer active fuel
    if (← nextOperator) = some "?" then
      skip 1
      let yes ← assignment outer (active && a != 0) fuel
      expect ":" .colonExpected
      let no ← choice outer (active && a == 0) fuel
      return if a == 0 then no else yes
    else return a
termination_by structural fuel => fuel

/-- The value of an expression that may give a name a value. -/
def assignment (outer : String → String) (active : Bool) : Nat → Evaluation Int64
  | 0 => throw .operandExpected
  | fuel + 1 => do
    match (← get).rest with
    | .name name :: .op text :: _ =>
      match assignment? text with
      | some op =>
        skip 2
        let b ← assignment outer active fuel
        if !active then return b
        else
          let n ← match op with
            | some op => apply op (← nameValue outer name) b
            | none => pure b
          modify fun p => { p with assigned := (name, n) :: p.assigned }
          return n
      | none => choice outer active fuel
    | _ => choice outer active fuel
termination_by structural fuel => fuel

end

/-- The value of an expression over the values of names, and the values that it gives to names, the
last one first. -/
def evaluate (outer : String → String) (expression : String) :
    Except Fault (Int64 × List (String × Int64)) := do
  let ts := tokens (expression.length + 1) expression.toList
  let (n, p) ← (assignment outer true (16 * ts.length + 32)).run ⟨ts, []⟩
  if p.rest = [] then return (n, p.assigned) else throw .endExpected

end StrongCyclic.Shell.Arithmetic
