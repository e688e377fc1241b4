import TurtleBoard.Point

/-! The ruled lines of a board: one step apart, symmetric about the center, and one beyond each edge. Every fifth line
from the center is heavier, and the center line more so. -/
namespace TurtleBoard.Ruling

inductive Weight where
  | center
  | fifth
  | plain
  deriving DecidableEq, Repr

def weightAt (i : Int) : Weight := if i = 0 then .center else if i % 5 = 0 then .fifth else .plain

def Weight.color : Weight → String
  | center => "rgba(0, 0, 0, 0.16)"
  | fifth => "rgba(0, 0, 0, 0.09)"
  | plain => "rgba(0, 0, 0, 0.05)"

structure Line (α : Type) where
  start : Point α
  finish : Point α
  weight : Weight
  deriving Repr

variable {α : Type} [Scalar α]

/- The pixels in a step: the smaller side holds `steps` of them on both sides of the center and half a step of margin at
each edge. -/
def stepSize (steps : Nat) (width height : α) : α :=
  Scalar.min width height / (Scalar.ofInt steps * Scalar.ofInt 2 + Scalar.ofInt 1)

def lineCount (center step : α) : Int := Scalar.truncIn Number.minWord Number.maxWord (center / step) + 1

def symmetric (n : Int) : List Int := (List.range (2 * n + 1).toNat).map fun (i : Nat) => (i : Int) - n

def offsets (extent step : α) : List (Int × α) :=
  let center := extent / Scalar.ofInt 2
  (symmetric (lineCount center step)).map fun i => (i, center + Scalar.ofInt i * step)

def lines (step width height : α) : List (Line α) :=
  if Scalar.le step Scalar.zero then [] else
  (offsets width step).map (fun (i, x) => ⟨⟨x, Scalar.zero⟩, ⟨x, height⟩, weightAt i⟩) ++
    (offsets height step).map (fun (i, y) => ⟨⟨Scalar.zero, y⟩, ⟨width, y⟩, weightAt i⟩)

end TurtleBoard.Ruling
