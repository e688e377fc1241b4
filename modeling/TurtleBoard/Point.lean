import TurtleBoard.Number.Scalar

/-! Points of the plane, in pixels: x to the right and y down. -/
namespace TurtleBoard

structure Point (α : Type) where
  x : α
  y : α
  deriving BEq, DecidableEq, Repr

namespace Point
variable {α : Type}

def origin [Scalar α] : Point α := ⟨Scalar.zero, Scalar.zero⟩

def distance [Trig α] (a b : Point α) : α :=
  Trig.sqrt ((b.x - a.x) * (b.x - a.x) + (b.y - a.y) * (b.y - a.y))

def between [Scalar α] (a b : Point α) (t : α) : Point α :=
  ⟨(b.x - a.x) * t + a.x, (b.y - a.y) * t + a.y⟩

end Point
end TurtleBoard
