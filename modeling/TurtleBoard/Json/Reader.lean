import TurtleBoard.Json.Value
import TurtleBoard.Utf8

/-! JSON text read as one value with blanks around it. Strings may hold stray bytes and lone surrogates here, since they
matter only where text is asked for; escapes must be well formed, and control characters must be escaped. Values may be
nested to any depth. -/
namespace TurtleBoard.Json

def isBlank (c : Option Char) : Bool := c = some ' ' || c = some '\t' || c = some '\n' || c = some '\r'

def skipBlanks (cs : List (Option Char)) : List (Option Char) := cs.dropWhile isBlank

def escape? : Char → Option Char
  | '"' => some '"'
  | '\\' => some '\\'
  | '/' => some '/'
  | 'b' => some '\x08'
  | 'f' => some '\x0c'
  | 'n' => some '\n'
  | 'r' => some '\r'
  | 't' => some '\t'
  | _ => none

def hexCode? (a b c d : Char) : Option Nat :=
  if [a, b, c, d].all Text.isHexDigit then
    some (((Text.hexValue a * 16 + Text.hexValue b) * 16 + Text.hexValue c) * 16 + Text.hexValue d)
  else none

def pieceOfCode (code : Nat) : Piece :=
  if 0xd800 ≤ code ∧ code < 0xe000 then .surrogate code else .char (Char.ofNat code)

def string? : List (Option Char) → Option (List Piece × List (Option Char))
  | some '"' :: rest => some ([], rest)
  | some '\\' :: some 'u' :: some a :: some b :: some c :: some d :: rest =>
      match hexCode? a b c d, string? rest with
      | some code, some (pieces, rest) => some (pieceOfCode code :: pieces, rest)
      | _, _ => none
  | some '\\' :: some c :: rest =>
      match escape? c, string? rest with
      | some c, some (pieces, rest) => some (.char c :: pieces, rest)
      | _, _ => none
  | some c :: rest =>
      if c.toNat < 0x20 || c = '\\' then none
      else (string? rest).map fun (pieces, rest) => (.char c :: pieces, rest)
  | none :: rest => (string? rest).map fun (pieces, rest) => (.stray :: pieces, rest)
  | [] => none

def digits : List (Option Char) → List Char × List (Option Char)
  | some c :: rest =>
      if c.isDigit then
        let (ds, rest) := digits rest
        (c :: ds, rest)
      else ([], some c :: rest)
  | rest => ([], rest)

def whole? (cs : List (Option Char)) : Option (List Char × List (Option Char)) :=
  match digits cs with
  | ([], _) => none
  | ('0' :: _ :: _, _) => none
  | (ds, rest) => some (ds, rest)

def fraction? (cs : List (Option Char)) : Option (List Char × List (Option Char)) :=
  match cs with
  | some '.' :: rest =>
      match digits rest with
      | ([], _) => none
      | found => some found
  | _ => some ([], cs)

def exponent? (cs : List (Option Char)) : Option (Option (Bool × List Char) × List (Option Char)) :=
  match cs with
  | some c :: rest =>
      if c = 'e' ∨ c = 'E' then
        let (negative, rest) :=
          match rest with
          | some '-' :: rest => (true, rest)
          | some '+' :: rest => (false, rest)
          | rest => (false, rest)
        match digits rest with
        | ([], _) => none
        | (ds, rest) => some (some (negative, ds), rest)
      else some (none, cs)
  | _ => some (none, cs)

def number? (cs : List (Option Char)) : Option (Numeral × List (Option Char)) := do
  let (negative, cs) :=
    match cs with
    | some '-' :: rest => (true, rest)
    | cs => (false, cs)
  let (whole, cs) ← whole? cs
  let (fraction, cs) ← fraction? cs
  let (exponent, cs) ← exponent? cs
  return (⟨negative, whole, fraction, exponent⟩, cs)

def literal? (word : String) (cs : List (Option Char)) : Option (List (Option Char)) :=
  if word.toList.map some <+: cs then some (cs.drop word.length) else none

mutual

def value? : Nat → List (Option Char) → Option (Json × List (Option Char))
  | 0, _ => none
  | fuel + 1, cs =>
      match skipBlanks cs with
      | some 'n' :: rest => (literal? "ull" rest).map (.null, ·)
      | some 't' :: rest => (literal? "rue" rest).map (.bool true, ·)
      | some 'f' :: rest => (literal? "alse" rest).map (.bool false, ·)
      | some '"' :: rest => (string? rest).map fun (pieces, rest) => (.string pieces, rest)
      | some '[' :: rest =>
          match skipBlanks rest with
          | some ']' :: rest => some (.array [], rest)
          | rest => (items? fuel rest).map fun (items, rest) => (.array items, rest)
      | some '{' :: rest =>
          match skipBlanks rest with
          | some '}' :: rest => some (.object [], rest)
          | rest => (members? fuel rest).map fun (members, rest) => (.object members, rest)
      | cs => (number? cs).map fun (numeral, rest) => (.number numeral, rest)

def items? : Nat → List (Option Char) → Option (List Json × List (Option Char))
  | 0, _ => none
  | fuel + 1, cs =>
      match value? fuel cs with
      | none => none
      | some (item, rest) =>
          match skipBlanks rest with
          | some ',' :: rest => (items? fuel rest).map fun (items, rest) => (item :: items, rest)
          | some ']' :: rest => some ([item], rest)
          | _ => none

def members? : Nat → List (Option Char) → Option (List (List Piece × Json) × List (Option Char))
  | 0, _ => none
  | fuel + 1, cs =>
      match skipBlanks cs with
      | some '"' :: rest =>
          match string? rest with
          | none => none
          | some (name, rest) =>
              match skipBlanks rest with
              | some ':' :: rest =>
                  match value? fuel rest with
                  | none => none
                  | some (value, rest) =>
                      match skipBlanks rest with
                      | some ',' :: rest =>
                          (members? fuel rest).map fun (members, rest) => ((name, value) :: members, rest)
                      | some '}' :: rest => some ([(name, value)], rest)
                      | _ => none
              | _ => none
      | _ => none

end

/- A text that is one value. Every second step reads a character, so the fuel suffices. -/
def read? (cs : List (Option Char)) : Option Json :=
  match value? (2 * cs.length + 2) cs with
  | some (value, rest) => if skipBlanks rest = [] then some value else none
  | none => none

def ofBytes? (bytes : ByteArray) : Option Json := read? (Utf8.chars bytes)

end TurtleBoard.Json
