import StrongCyclic.Text.Numeral

/-!
What the machine cannot hold: a sum of 64-bit words that is no word, and a list that takes more
bytes than half of the addresses. To ask for either is a crash. A crash ends the program at once and
is no fault that a caller could be told of.
-/

namespace StrongCyclic

/-- What ends the program at once. -/
inductive Crash
  /-- Room for more entries than a list can have. -/
  | capacity
  /-- A sum past the largest word. -/
  | overflow
deriving DecidableEq, Repr, Inhabited

/-- The wording of a crash. -/
def Crash.message : Crash → String
  | capacity => "capacity overflow"
  | overflow => "attempt to add with overflow"

namespace Word

/-- The sum of two words. -/
def add (a b : Nat) : Except Crash Nat :=
  if a + b < Text.wordLimit then .ok (a + b) else .error .overflow

/-- The number of entries that a list can have if each takes `bytes` bytes and lies at a multiple
of eight. -/
def capacity (bytes : Nat) : Nat :=
  (Text.wordLimit / 2 - 8) / bytes

/-- Makes room for a list of `n` entries of `bytes` bytes each. -/
def reserve (bytes n : Nat) : Except Crash Unit :=
  if n ≤ capacity bytes then .ok () else .error .capacity

theorem add_eq_ok {a b c : Nat} : add a b = .ok c ↔ c = a + b ∧ a + b < Text.wordLimit := by
  by_cases h : a + b < Text.wordLimit <;> simp [add, h, eq_comm]

theorem add_eq_error {a b : Nat} {crash : Crash} :
    add a b = .error crash ↔ Text.wordLimit ≤ a + b ∧ crash = .overflow := by
  by_cases h : a + b < Text.wordLimit <;> simp [add, h, ← Nat.not_lt, eq_comm]

theorem reserve_eq_ok {bytes n : Nat} {u : Unit} : reserve bytes n = .ok u ↔ n ≤ capacity bytes := by
  by_cases h : n ≤ capacity bytes <;> simp [reserve, h]

theorem reserve_eq_error {bytes n : Nat} {crash : Crash} :
    reserve bytes n = .error crash ↔ capacity bytes < n ∧ crash = .capacity := by
  by_cases h : n ≤ capacity bytes <;> simp [reserve, h, ← Nat.not_le, eq_comm]

end Word

end StrongCyclic
