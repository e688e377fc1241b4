import TurtleBoard.Number.Exact

/-! Decimal text of floats: the fewest digits that read back, a fixed number of places, and the reader of plain
decimals. Plain decimals are ASCII digits with an optional point; exponents are read in `parse` only. -/
namespace TurtleBoard.Number

def digitValue (c : Char) : Nat := c.toNat - '0'.toNat

def digitsValue (digits : List Char) : Nat := digits.foldl (fun n c => 10 * n + digitValue c) 0

def allDigits (cs : List Char) : Bool := !cs.isEmpty && cs.all Char.isDigit

def ofDecimal (c : Nat) (places : Int) : Float :=
  if 0 ≤ places then nearest c (tenPow places.toNat) else nearest (c * tenPow (-places).toNat) 1

def readPlain? (cs : List Char) : Option Float :=
  let whole := cs.takeWhile Char.isDigit
  if whole.isEmpty then none else
  match cs.dropWhile Char.isDigit with
  | [] => some (ofDecimal (digitsValue whole) 0)
  | '.' :: fraction =>
      if allDigits fraction then some (ofDecimal (digitsValue (whole ++ fraction)) fraction.length) else none
  | _ => none

def neighbour? (x : Float) (n d : Nat) (places : Int) : Option Nat :=
  let n := if 0 ≤ places then n * tenPow places.toNat else n
  let d := if 0 ≤ places then d else d * tenPow (-places).toNat
  let low := n / d
  let reads (c : Nat) : Bool := (ofDecimal c places).toBits == x.toBits
  match reads low, reads (low + 1) with
  | true, true => some (if 2 * (n % d) < d then low else low + 1)
  | true, false => some low
  | false, true => some (low + 1)
  | false, false => none

def firstGrid (x : Float) (n d : Nat) : Nat → Int → Nat × Int
  | 0, places => (n * tenPow places.toNat / d, places)
  | grids + 1, places =>
      match neighbour? x n d places with
      | some c => (c, places)
      | none => firstGrid x n d grids (places + 1)

/- The shortest decimal that reads back as the positive finite float `x` of value `n / d`, as digits and places.
Every such float is a whole multiple of `10^(-1074)`, so the last grid always has it. -/
def shortest (x : Float) (n d : Nat) : Nat × Int :=
  firstGrid x n d 1383 (-309)

def decimalText (c : Nat) (places : Int) : String :=
  if places ≤ 0 then toString (c * tenPow (-places).toNat) else
  let p := places.toNat
  let fraction := toString (c % tenPow p)
  toString (c / tenPow p) ++ "." ++ "".pushn '0' (p - fraction.length) ++ fraction

def text (x : Float) : String :=
  match value? x with
  | none => if x.isNaN then "NaN" else if x < 0 then "-inf" else "inf"
  | some r =>
      let negative := x.toBits >>> 63 == 1
      let magnitude := if r.num = 0 then "0" else
        let (c, places) := shortest x.abs r.num.natAbs r.den
        decimalText c places
      if negative then "-" ++ magnitude else magnitude

def textOnePlace (x : Float) : String :=
  match value? x with
  | none => if x.isNaN then "NaN" else if x < 0 then "-inf" else "inf"
  | some r =>
      let tenths := roundHalfEven (10 * r.num.natAbs) r.den
      let magnitude := decimalText tenths 1
      if x.toBits >>> 63 == 1 then "-" ++ magnitude else magnitude

/- A decimal with an optional exponent of ten. Exponents beyond every float's are cut off, so that no huge power is
computed: a nonzero significand of `k` digits stays beyond reach of the floats. -/
def scaled (digits : List Char) (places : Int) : Float :=
  let c := digitsValue digits
  if c = 0 then nearest 0 1
  else if places < -400 then nearest (twoPow 2000) 1
  else if places > digits.length + 400 then nearest 0 1
  else ofDecimal c places

def readExponent? (cs : List Char) : Option Int :=
  match cs with
  | '-' :: ds => if allDigits ds then some (-(digitsValue ds : Int)) else none
  | '+' :: ds => if allDigits ds then some (digitsValue ds : Int) else none
  | ds => if allDigits ds then some (digitsValue ds : Int) else none

def readMagnitude? (cs : List Char) : Option Float :=
  if cs = "inf".toList ∨ cs = "infinity".toList then some (Float.ofBits (UInt64.ofNat infinityBits))
  else if cs = "nan".toList then some (0.0 / 0.0)
  else
    let whole := cs.takeWhile Char.isDigit
    let (fraction, rest) :=
      match cs.dropWhile Char.isDigit with
      | '.' :: tail => (tail.takeWhile Char.isDigit, tail.dropWhile Char.isDigit)
      | tail => ([], tail)
    if whole.isEmpty && fraction.isEmpty then none else
    match rest with
    | [] => some (scaled (whole ++ fraction) fraction.length)
    | 'e' :: exponent => (readExponent? exponent).map fun e => scaled (whole ++ fraction) (fraction.length - e)
    | _ => none

def read? (cs : List Char) : Option Float :=
  match cs with
  | '-' :: magnitude => (readMagnitude? magnitude).map (-·)
  | '+' :: magnitude => readMagnitude? magnitude
  | magnitude => readMagnitude? magnitude

end TurtleBoard.Number
