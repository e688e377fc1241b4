import TurtleBoard.Json.Value

/-! JSON values as text: compact, or spread over lines with two more blanks for each level. Quotes, backslashes and
control characters are escaped; all other characters stand for themselves. -/
namespace TurtleBoard.Json

def hex4 (n : Nat) : List Char :=
  [Text.hexDigit (n / 4096 % 16), Text.hexDigit (n / 256 % 16), Text.hexDigit (n / 16 % 16), Text.hexDigit (n % 16)]

def writeChar (c : Char) : List Char :=
  match c with
  | '"' => ['\\', '"']
  | '\\' => ['\\', '\\']
  | '\x08' => ['\\', 'b']
  | '\x0c' => ['\\', 'f']
  | '\n' => ['\\', 'n']
  | '\r' => ['\\', 'r']
  | '\t' => ['\\', 't']
  | c => if c.toNat < 0x20 then '\\' :: 'u' :: hex4 c.toNat else [c]

def writePiece : Piece → List Char
  | .char c => writeChar c
  | .surrogate code => '\\' :: 'u' :: hex4 code
  | .stray => ['\ufffd']

def writeString (pieces : List Piece) : List Char := '"' :: (pieces.flatMap writePiece ++ ['"'])

def Numeral.write (n : Numeral) : List Char :=
  (if n.negative then ['-'] else []) ++ n.whole ++ (if n.fraction = [] then [] else '.' :: n.fraction) ++
    match n.exponent with
    | none => []
    | some (negative, digits) => 'e' :: ((if negative then ['-'] else []) ++ digits)

mutual

def write : Json → List Char
  | .null => "null".toList
  | .bool value => (if value then "true" else "false").toList
  | .number numeral => numeral.write
  | .string pieces => writeString pieces
  | .array items => '[' :: (writeItems items ++ [']'])
  | .object members => '{' :: (writeMembers members ++ ['}'])

def writeItems : List Json → List Char
  | [] => []
  | [item] => item.write
  | item :: items => item.write ++ ',' :: writeItems items

def writeMembers : List (List Piece × Json) → List Char
  | [] => []
  | [(name, value)] => writeString name ++ ':' :: value.write
  | (name, value) :: members => writeString name ++ ':' :: (value.write ++ ',' :: writeMembers members)

end

def newline (depth : Nat) : List Char := '\n' :: List.replicate (2 * depth) ' '

mutual

def writeLines (depth : Nat) : Json → List Char
  | .array (item :: items) => '[' :: (linesOfItems (depth + 1) (item :: items) ++ newline depth ++ [']'])
  | .object (member :: members) => '{' :: (linesOfMembers (depth + 1) (member :: members) ++ newline depth ++ ['}'])
  | value => value.write

def linesOfItems (depth : Nat) : List Json → List Char
  | [] => []
  | [item] => newline depth ++ item.writeLines depth
  | item :: items => newline depth ++ item.writeLines depth ++ ',' :: linesOfItems depth items

def linesOfMembers (depth : Nat) : List (List Piece × Json) → List Char
  | [] => []
  | [(name, value)] => newline depth ++ writeString name ++ ':' :: ' ' :: value.writeLines depth
  | (name, value) :: members =>
      newline depth ++ writeString name ++ ':' :: ' ' :: (value.writeLines depth ++ ',' :: linesOfMembers depth members)

end

def compact (value : Json) : String := String.ofList value.write
def pretty (value : Json) : String := String.ofList (value.writeLines 0)
def toBytes (value : Json) : ByteArray := value.compact.toUTF8

end TurtleBoard.Json
