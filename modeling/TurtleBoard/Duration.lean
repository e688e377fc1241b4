import TurtleBoard.Number.Scalar

/-! Spans of time and instants counted from a common start, in whole nanoseconds with a longest span.
Sums stop at the longest span and differences at zero. -/
namespace TurtleBoard

namespace Duration
def nanosPerSecond : Nat := 1000000000
def maxNanos : Nat := Number.wordLimit * nanosPerSecond - 1
end Duration

structure Duration where
  nanos : Nat
  le_max : nanos ≤ Duration.maxNanos
  deriving DecidableEq, Repr

namespace Duration

def ofNanos (n : Nat) : Duration := ⟨min n maxNanos, Nat.min_le_right _ _⟩

def zero : Duration := ofNanos 0
def longest : Duration := ofNanos maxNanos
def ofMillis (n : Nat) : Duration := ofNanos (n * 1000000)

instance : Inhabited Duration := ⟨zero⟩
instance : Add Duration := ⟨fun a b => ofNanos (a.nanos + b.nanos)⟩
instance : Sub Duration := ⟨fun a b => ofNanos (a.nanos - b.nanos)⟩
instance : LE Duration := ⟨fun a b => a.nanos ≤ b.nanos⟩
instance : LT Duration := ⟨fun a b => a.nanos < b.nanos⟩
instance (a b : Duration) : Decidable (a ≤ b) := inferInstanceAs (Decidable (a.nanos ≤ b.nanos))
instance (a b : Duration) : Decidable (a < b) := inferInstanceAs (Decidable (a.nanos < b.nanos))

variable {α : Type} [Scalar α]

def seconds (d : Duration) : α :=
  Scalar.ofInt (d.nanos / nanosPerSecond : Nat) +
    Scalar.ofInt (d.nanos % nanosPerSecond : Nat) / Scalar.ofInt nanosPerSecond

def ofSeconds (s : α) : Duration :=
  match Scalar.value? s with
  | some r => if r.num < 0 then longest else ofNanos (Number.roundHalfEven (r.num.natAbs * nanosPerSecond) r.den)
  | none => longest

def times (d : Duration) (n : α) : Duration := ofSeconds (d.seconds * n)

end Duration
end TurtleBoard
