import TurtleBoard.Number.Decimal

/-! Text as lists of characters: blanks, trimming, lines, fields and small numbers.
Blanks are those of Unicode; the letter case is that of ASCII. -/
namespace TurtleBoard.Text

def isBlank (c : Char) : Bool :=
  let n := c.toNat
  (9 ≤ n && n ≤ 13) || n = 32 || n = 0x85 || n = 0xa0 || n = 0x1680 || (0x2000 ≤ n && n ≤ 0x200a) ||
    n = 0x2028 || n = 0x2029 || n = 0x202f || n = 0x205f || n = 0x3000

def trimStart (cs : List Char) : List Char := cs.dropWhile isBlank

def trimEnd (cs : List Char) : List Char := (cs.reverse.dropWhile isBlank).reverse

def trim (cs : List Char) : List Char := trimEnd (trimStart cs)

def lower (cs : List Char) : List Char := cs.map Char.toLower

def dropPrefix? : List Char → List Char → Option (List Char)
  | [], cs => some cs
  | s :: start, c :: cs => if s = c then dropPrefix? start cs else none
  | _ :: _, [] => none

def dropSuffix? (finish cs : List Char) : Option (List Char) :=
  (dropPrefix? finish.reverse cs.reverse).map List.reverse

def contains (part : List Char) : List Char → Bool
  | [] => part.isEmpty
  | c :: cs => part.isPrefixOf (c :: cs) || contains part cs

def fields (isSeparator : Char → Bool) : List Char → List (List Char)
  | [] => [[]]
  | c :: cs =>
      if isSeparator c then [] :: fields isSeparator cs else
      match fields isSeparator cs with
      | first :: rest => (c :: first) :: rest
      | [] => [[c]]

def dropReturn (cs : List Char) : List Char :=
  match cs.reverse with
  | '\r' :: rest => rest.reverse
  | _ => cs

/- Each line ends at a line feed, a carriage return before it being part of the ending; text after the last line feed
is one more line, and keeps its carriage returns. -/
def lines (cs : List Char) : List (List Char) :=
  let parts := fields (· == '\n') cs
  let ended := parts.dropLast.map dropReturn
  match parts.getLast? with
  | none | some [] => ended
  | some last => ended ++ [last]

def isHexDigit (c : Char) : Bool := c.isDigit || ('a' ≤ c && c ≤ 'f') || ('A' ≤ c && c ≤ 'F')

def hexValue (c : Char) : Nat :=
  if c.isDigit then c.toNat - '0'.toNat else if 'a' ≤ c then c.toNat - 'a'.toNat + 10 else c.toNat - 'A'.toNat + 10

def dropPlus : List Char → List Char
  | '+' :: cs => cs
  | cs => cs

def natBelow? (limit : Nat) (cs : List Char) : Option Nat :=
  let digits := dropPlus cs
  if Number.allDigits digits && Number.digitsValue digits < limit then some (Number.digitsValue digits) else none

def byte? (cs : List Char) : Option UInt8 := (natBelow? 256 cs).map UInt8.ofNat

def hexByte? (cs : List Char) : Option UInt8 :=
  let digits := dropPlus cs
  if !digits.isEmpty && digits.all isHexDigit then
    some (UInt8.ofNat (digits.foldl (fun n c => 16 * n + hexValue c) 0))
  else none

def hexDigit (n : Nat) : Char := if n < 10 then Char.ofNat ('0'.toNat + n) else Char.ofNat ('a'.toNat + (n - 10))

end TurtleBoard.Text
