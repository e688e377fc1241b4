import TurtleBoard.Key
import TurtleBoard.Number.Decimal

/-! Keys read from the characters that a terminal sends for them. -/
namespace TurtleBoard.Key

def escape : Char := '\x1b'

def ofChar (c : Char) : Key :=
  if c = '\r' then { code := .enter }
  else if c = '\t' then { code := .tab }
  else if c = '\x7f' then { code := .backspace }
  else if c = escape then { code := .esc }
  else if 1 ≤ c.toNat ∧ c.toNat ≤ 26 then
    { code := .char (Char.ofNat (c.toNat - 1 + 'a'.toNat)), modifiers := { control := true } }
  else { code := .char c, modifiers := { shift := c.isUpper } }

def codeOfNumber (n : Nat) : KeyCode :=
  if n = 9 then .tab
  else if n = 13 then .enter
  else if n = 27 then .esc
  else if n = 57441 then .modifier .leftShift
  else if n = 57447 then .modifier .rightShift
  else .char (Char.ofNat n)

def modifiersOfNumber (n : Nat) : Modifiers :=
  let bits := n - 1
  { shift := bits.testBit 0, alt := bits.testBit 1, control := bits.testBit 2, superKey := bits.testBit 3 }

def kindOfNumber (n : Nat) : KeyKind := if n = 2 then .repeated else if n = 3 then .release else .press

def number? (cs : List Char) : Option Nat := if Number.allDigits cs then some (Number.digitsValue cs) else none

def ofReport? (parameters : List Char) : Option Key := do
  match Text.fields (· == ';') parameters with
  | [code] => return { code := codeOfNumber (← number? code) }
  | [code, state] =>
      match Text.fields (· == ':') state with
      | [modifiers] =>
          return { code := codeOfNumber (← number? code), modifiers := modifiersOfNumber (← number? modifiers) }
      | [modifiers, kind] =>
          return {
            code := codeOfNumber (← number? code)
            modifiers := modifiersOfNumber (← number? modifiers)
            kind := kindOfNumber (← number? kind) }
      | _ => none
  | _ => none

def isParameter (c : Char) : Bool := c.isDigit || c == ';' || c == ':'

def first : Char → List Char → Key × List Char
  | '\x1b', '[' :: cs =>
      match cs with
      | 'A' :: rest => ({ code := .up }, rest)
      | 'B' :: rest => ({ code := .down }, rest)
      | 'C' :: rest => ({ code := .right }, rest)
      | 'D' :: rest => ({ code := .left }, rest)
      | 'Z' :: rest => ({ code := .backTab, modifiers := { shift := true } }, rest)
      | _ =>
          match ofReport? (cs.takeWhile isParameter), cs.dropWhile isParameter with
          | some key, 'u' :: rest => (key, rest)
          | _, _ => ({ code := .char '[', modifiers := { alt := true } }, cs)
  | '\x1b', 'O' :: 'Q' :: rest => ({ code := .function 2 }, rest)
  | '\x1b', '\x1b' :: rest => (ofChar escape, escape :: rest)
  | '\x1b', c :: rest =>
      let key := ofChar c
      ({ key with modifiers := { key.modifiers with alt := true } }, rest)
  | c, rest => (ofChar c, rest)

/- Every key takes at least one character, so that as many rounds as there are characters read them all. -/
def readRounds : Nat → List Char → List Key
  | rounds + 1, c :: cs =>
      let (key, rest) := first c cs
      key :: readRounds rounds rest
  | _, _ => []

def ofText (cs : List Char) : List Key := readRounds cs.length cs

end TurtleBoard.Key
