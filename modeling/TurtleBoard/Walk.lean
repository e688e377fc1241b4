import TurtleBoard.Number.Scalar

/-! The walk cycle: which frame of a sprite sheet a walker shows. The cycle runs from the middle frame to the last, back
to the first and up to the middle again. -/
namespace TurtleBoard.Walk

def period (frames : Nat) : Nat := 2 * max frames 1 - 1

def standing (frames : Nat) : Nat := (max frames 1 - 1) / 2

def frameAt (frames strides : Nat) : Nat :=
  let turn := (strides % period frames + standing frames) % period frames
  if turn < max frames 1 then turn else period frames - turn

variable {α : Type} [Scalar α]

def strides (distance frameDistance : α) : Nat :=
  if Scalar.lt Scalar.zero frameDistance && Scalar.lt Scalar.zero distance then
    (Scalar.truncIn 0 (Number.wordLimit - 1) (distance / frameDistance)).toNat
  else 0

def frame (distance frameDistance : α) (frames : Nat) : Nat := frameAt frames (strides distance frameDistance)

def sheetOffset (frame : Nat) (size : Int) : Int := -(frame : Int) * size

end TurtleBoard.Walk
