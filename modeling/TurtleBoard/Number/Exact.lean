/-! The exact value of a float and the float nearest to an exact ratio.
Both are total and use integers only; signs of zero and the kinds of NaN are not kept. -/
namespace TurtleBoard.Number
open Float.Model

def twoPow (n : Nat) : Nat := Nat.pow 2 n
def tenPow (n : Nat) : Nat := Nat.pow 10 n

def minWord : Int := -9223372036854775808

def maxWord : Int := 9223372036854775807

def wordLimit : Nat := 18446744073709551616

def value? (x : Float) : Option Rat :=
  match x.toModel.unpack with
  | .finite sign m e _ =>
      some (if e < 0 then mkRat (sign.apply m) (twoPow (-e).toNat) else ((sign.apply m * twoPow e.toNat : Int) : Rat))
  | .zero _ => some 0
  | .infinity _ | .notANumber => none

def roundHalfEven (n d : Nat) : Nat :=
  if 2 * (n % d) < d ∨ (2 * (n % d) = d ∧ n / d % 2 = 0) then n / d else n / d + 1

def roundHalfAway (r : Rat) : Int :=
  r.num.sign * ((2 * r.num.natAbs + r.den) / (2 * r.den) : Nat)

def truncate (r : Rat) : Int := r.num.tdiv r.den

/- The power of two of the last place of the float nearest to `n / d`: the one that leaves the quotient 53 binary
digits, but never below the last place of the smallest floats. -/
def lastPlace (n d : Nat) : Int :=
  let e : Int := (n.log2 : Int) - d.log2 - 52
  let tooWide := if 0 ≤ e then n < d * twoPow (52 + e.toNat) else n * twoPow (-e).toNat < d * twoPow 52
  max (-1074) (if tooWide then e - 1 else e)

def infinityBits : Nat := 0x7ff0000000000000

/- The float nearest to `n / d`, a half going to the even neighbour; a ratio past the largest float gives infinity.
A significand that rounds up to the next power of two carries into the exponent. -/
def nearest (n d : Nat) : Float :=
  let e := if n = 0 then -1074 else lastPlace n d
  let m := if 0 ≤ e then roundHalfEven n (d * twoPow e.toNat) else roundHalfEven (n * twoPow (-e).toNat) d
  Float.ofBits (UInt64.ofNat (min infinityBits ((e + 1074).toNat * twoPow 52 + m)))

def ofRat (r : Rat) : Float :=
  let x := nearest r.num.natAbs r.den
  if r.num < 0 then -x else x

end TurtleBoard.Number
