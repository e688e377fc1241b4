import TurtleBoard.Text

/-! JSON values as they stand in a text. Strings keep what may not be a character, numbers keep their digits, and
objects keep their members in order, so that each reader decides what it accepts. -/
namespace TurtleBoard

inductive Json.Piece where
  | char (c : Char)
  | surrogate (code : Nat)
  | stray
  deriving DecidableEq, Repr

structure Json.Numeral where
  negative : Bool
  whole : List Char
  fraction : List Char
  exponent : Option (Bool × List Char)
  deriving DecidableEq, Repr

inductive Json where
  | null
  | bool (value : Bool)
  | number (numeral : Json.Numeral)
  | string (pieces : List Json.Piece)
  | array (items : List Json)
  | object (members : List (List Json.Piece × Json))
  deriving Repr

namespace Json

def isHighSurrogate (code : Nat) : Bool := 0xd800 ≤ code && code < 0xdc00
def isLowSurrogate (code : Nat) : Bool := 0xdc00 ≤ code && code < 0xe000

def chars? : List Piece → Option (List Char)
  | [] => some []
  | .char c :: rest => (chars? rest).map (c :: ·)
  | .surrogate high :: .surrogate low :: rest =>
      if isHighSurrogate high && isLowSurrogate low then
        (chars? rest).map (Char.ofNat (0x10000 + (high - 0xd800) * 0x400 + (low - 0xdc00)) :: ·)
      else none
  | .surrogate _ :: _ => none
  | .stray :: _ => none

def ofText (text : String) : Json := .string (text.toList.map .char)

def ofFields (fields : List (String × Json)) : Json :=
  .object (fields.map fun (name, value) => (name.toList.map .char, value))

def text? : Json → Option String
  | .string pieces => (chars? pieces).map String.ofList
  | _ => none

def natBelow? (limit : Nat) : Json → Option Nat
  | .number ⟨false, whole, [], none⟩ =>
      if Number.digitsValue whole < limit then some (Number.digitsValue whole) else none
  | _ => none

def intWithin? (limit : Nat) : Json → Option Int
  | .number ⟨negative, whole, [], none⟩ =>
      let n := Number.digitsValue whole
      if negative then (if 0 < n ∧ n ≤ limit then some (-(n : Int)) else none)
      else (if n < limit then some (n : Int) else none)
  | _ => none

/- The values given for the named fields, in the order of the names. An object may have other members, but none of these
twice and no member whose name is not text; an array gives the first fields by position. -/
def fields? (names : List String) : Json → Option (List (Option Json))
  | .object members => do
      let members ← members.mapM fun (name, value) => (chars? name).map fun cs => (String.ofList cs, value)
      names.mapM fun name =>
        match members.filter (·.1 == name) with
        | [] => some none
        | [(_, value)] => some (some value)
        | _ => none
  | .array items =>
      if items.length ≤ names.length then
        some (items.map some ++ List.replicate (names.length - items.length) none)
      else none
  | _ => none

end Json
end TurtleBoard
