import TurtleBoard.Json.Value
import TurtleBoard.Number.Scalar

/-! Floats from JSON numbers. The digits are gathered into a significand of 64 bits, which is then multiplied or divided
by a power of ten, so that long numbers are off by a last place now and then. -/
namespace TurtleBoard.Json

def gather : Nat → List Char → Nat × Nat
  | significand, [] => (significand, 0)
  | significand, c :: cs =>
      let next := 10 * significand + Number.digitValue c
      if next < Number.wordLimit then gather next cs else (significand, cs.length + 1)

def gatherFraction : Nat → List Char → Nat × Nat
  | significand, [] => (significand, 0)
  | significand, c :: cs =>
      let next := 10 * significand + Number.digitValue c
      if next < Number.wordLimit then
        let (significand, places) := gatherFraction next cs
        (significand, places + 1)
      else (significand, 0)

def powerOfTen (n : Nat) : Float := Number.nearest (Number.tenPow n) 1

def scale? : Nat → Float → Int → Option Float
  | steps, x, e =>
      if e.natAbs ≤ 308 then
        if 0 ≤ e then
          let scaled := x * powerOfTen e.natAbs
          if scaled.isInf then none else some scaled
        else some (x / powerOfTen e.natAbs)
      else if x == 0 then some x
      else if 0 ≤ e then none
      else
        match steps with
        | 0 => some x
        | steps + 1 => scale? steps (x / powerOfTen 308) (e + 308)

/- An exponent that needs more than 31 bits is out of range, unless it makes the number zero. -/
def exponentLimit : Nat := 2147483648

def holdExponent (e : Int) : Int := Scalar.hold (-exponentLimit) (exponentLimit - 1) e

def magnitude? (n : Numeral) : Option Float :=
  let (whole, extra) := gather 0 n.whole
  let (significand, places) := gatherFraction whole n.fraction
  let start : Int := (extra : Int) - places
  match n.exponent with
  | none =>
      if extra = 0 ∧ n.fraction = [] then some (Float.ofNat significand) else scale? 3 (Float.ofNat significand) start
  | some (negative, digits) =>
      let e := Number.digitsValue digits
      if e < exponentLimit then
        scale? 3 (Float.ofNat significand) (holdExponent (if negative then start - e else start + e))
      else if significand = 0 ∨ negative then some 0.0 else none

def Numeral.float? (n : Numeral) : Option Float := (magnitude? n).map fun x => if n.negative then -x else x

def float? : Json → Option Float
  | .number n => n.float?
  | _ => none

end TurtleBoard.Json
