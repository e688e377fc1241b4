import TurtleBoard.Point

/-! Where new actors start: on a drawn whole number of pixels from the center, within a fraction of the board. -/
namespace TurtleBoard

/- Random numbers that are still to be drawn; when they are used up, every draw is zero. -/
abbrev Draws := List Nat

namespace Draws

def below (draws : Draws) (n : Nat) : Nat × Draws :=
  match draws with
  | [] => (0, [])
  | d :: rest => (d % n, rest)

end Draws

namespace Spawn
variable {α : Type} [Scalar α]

def span (extent fraction : α) : Int := Scalar.truncIn Number.minWord Number.maxWord (extent * fraction)

def coordinate (span : Int) (draws : Draws) : Int × Draws :=
  if span ≤ 0 then (0, draws)
  else
    let (drawn, draws) := draws.below span.toNat
    (drawn - span / 2, draws)

def offset (width height fraction : α) (draws : Draws) : Point α × Draws :=
  let (x, draws) := coordinate (span width fraction) draws
  let (y, draws) := coordinate (span height fraction) draws
  (⟨Scalar.ofInt x, Scalar.ofInt y⟩, draws)

def canvasPoint (width height : α) (offset p : Point α) : Point α :=
  ⟨width / Scalar.ofInt 2 + offset.x + p.x, height / Scalar.ofInt 2 + offset.y + p.y⟩

end Spawn
end TurtleBoard
