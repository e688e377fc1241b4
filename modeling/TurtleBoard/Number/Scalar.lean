import TurtleBoard.Number.Exact

/-! The arithmetic that geometry and motion are written in, with floats and rationals as instances.
Rational instances make the laws of the geometry exact; programs run on floats. -/
namespace TurtleBoard

class Scalar (α : Type) extends Add α, Sub α, Mul α, Div α, Neg α, BEq α where
  ofInt : Int → α
  value? : α → Option Rat
  lt : α → α → Bool
  le : α → α → Bool

class Trig (α : Type) extends Scalar α where
  cosDegrees : α → α
  sinDegrees : α → α
  sqrt : α → α

instance : Scalar Rat where
  ofInt n := n
  value? := some
  lt a b := decide (a < b)
  le a b := decide (a ≤ b)

instance : Scalar Float where
  ofInt := Float.ofInt
  value? := Number.value?
  lt := Float.lt
  le := Float.le

def radiansPerDegree : Float := Float.ofBits 0x3f91df46a2529d39

instance : Trig Float where
  cosDegrees a := Float.cos (a * radiansPerDegree)
  sinDegrees a := Float.sin (a * radiansPerDegree)
  sqrt := Float.sqrt

namespace Scalar
variable {α : Type} [Scalar α]

def zero : α := ofInt 0
def one : α := ofInt 1

def isFinite (x : α) : Bool := (value? x).isSome

def max (a b : α) : α := if le b a then a else if le a b then b else if b == b then b else a

def min (a b : α) : α := if le a b then a else if le b a then b else if b == b then b else a

def abs (a : α) : α := if lt a zero then -a else a

def hold (lo hi n : Int) : Int := if n < lo then lo else if hi < n then hi else n

def roundedIn (rounding : Rat → Int) (lo hi : Int) (x : α) : Int :=
  match value? x with
  | some r => hold lo hi (rounding r)
  | none => hold lo hi (if lt zero x then hi else if lt x zero then lo else 0)

def floorIn (lo hi : Int) (x : α) : Int := roundedIn Rat.floor lo hi x
def ceilIn (lo hi : Int) (x : α) : Int := roundedIn Rat.ceil lo hi x
def truncIn (lo hi : Int) (x : α) : Int := roundedIn Number.truncate lo hi x

def clamp (lo hi x : α) : α := if lt x lo then lo else if lt hi x then hi else x

end Scalar
end TurtleBoard
