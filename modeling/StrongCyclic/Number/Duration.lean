import StrongCyclic.Number.Binary64

/-!
Spans of time in nanoseconds and their texts in seconds.
-/

namespace StrongCyclic

/-- A span of time. -/
structure Duration where
  nanos : Nat
deriving DecidableEq, Repr, Inhabited

namespace Duration

/-- A number of seconds. -/
def ofSeconds (n : Nat) : Duration := ⟨n * 1000000000⟩

/-- A number of milliseconds. -/
def ofMillis (n : Nat) : Duration := ⟨n * 1000000⟩

/-- A number of microseconds. -/
def ofMicros (n : Nat) : Duration := ⟨n * 1000⟩

/-- The span in seconds: the whole seconds and the rest are rounded before they are added. -/
def seconds (d : Duration) : Binary64 :=
  (Binary64.ofRatio (d.nanos / 1000000000) 1).add
    (Binary64.ofRatio (d.nanos % 1000000000) 1000000000)

/-- A budget for a reader; no budget is unlimited. -/
def describe : Option Duration → String
  | some d => d.seconds.fixedText 1 ++ "s"
  | none => "unlimited"

end Duration

end StrongCyclic
