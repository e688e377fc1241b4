import TurtleBoard.Text
import TurtleBoard.Utf8

/-! Web addresses as clients take them apart, and the percent code. Only `http` addresses are read. What a request names
is the path and the query: dot segments of the path are resolved, what may not stand in either is percent-coded, and a
fragment stays with the client. -/
namespace TurtleBoard

structure Url where
  host : String
  target : String
  deriving DecidableEq, Repr

namespace Percent

def ofByte (b : UInt8) : List Char :=
  ['%', Text.hexDigit (b.toNat / 16) |>.toUpper, Text.hexDigit (b.toNat % 16) |>.toUpper]

def isPrintable (c : Char) : Bool := 0x20 < c.toNat && c.toNat < 0x7f

def isPlainInPath (c : Char) : Bool := isPrintable c && !"\"#<>?`\x7b\x7d".toList.contains c

def isPlainInQuery (c : Char) : Bool := isPrintable c && !"\"#<>'".toList.contains c

def encodeChar (isPlain : Char → Bool) (c : Char) : List Char :=
  if isPlain c then [c] else (String.utf8EncodeChar c).flatMap ofByte

def encode (isPlain : Char → Bool) (cs : List Char) : List Char := cs.flatMap (encodeChar isPlain)

def bytes : List Char → List UInt8
  | '%' :: a :: b :: rest =>
      if Text.isHexDigit a && Text.isHexDigit b then
        UInt8.ofNat (16 * Text.hexValue a + Text.hexValue b) :: bytes rest
      else String.utf8EncodeChar '%' ++ bytes (a :: b :: rest)
  | c :: rest => String.utf8EncodeChar c ++ bytes rest
  | [] => []

def decode? (cs : List Char) : Option String := Utf8.text? ⟨(bytes cs).toArray⟩

end Percent

namespace Url

def isSlash (c : Char) : Bool := c = '/' || c = '\\'

def dots : List Char → List Char
  | '%' :: '2' :: e :: rest => if e = 'e' || e = 'E' then '.' :: dots rest else '%' :: '2' :: e :: dots rest
  | c :: rest => c :: dots rest
  | [] => []

/- Resolves dot segments, the segments read so far being in reverse: one dot names the same level and two the level
above. A dot segment at the end leaves an empty one. -/
def resolve (before : List (List Char)) : List (List Char) → List (List Char)
  | [] => before.reverse
  | [last] =>
      if dots last = ['.'] then (([] : List Char) :: before).reverse
      else if dots last = ['.', '.'] then (([] : List Char) :: before.tail).reverse
      else (last :: before).reverse
  | segment :: rest =>
      if dots segment = ['.'] then resolve before rest
      else if dots segment = ['.', '.'] then resolve before.tail rest
      else resolve (segment :: before) rest

def pathOf (cs : List Char) : List Char :=
  let segments := resolve [] (Text.fields isSlash (cs.drop 1))
  segments.flatMap fun segment => '/' :: Percent.encode Percent.isPlainInPath segment

def targetOf (cs : List Char) : List Char :=
  let sent := cs.takeWhile (· != '#')
  pathOf (sent.takeWhile (· != '?')) ++ Percent.encode Percent.isPlainInQuery (sent.dropWhile (· != '?'))

def withoutPort (host : List Char) : List Char :=
  ((Text.dropSuffix? ":80".toList host).or (Text.dropSuffix? ":".toList host)).getD host

def isControl (c : Char) : Bool := c.toNat ≤ 0x20

def clean (cs : List Char) : List Char :=
  ((cs.dropWhile isControl).reverse.dropWhile isControl).reverse.filter fun c => c != '\t' && c != '\n' && c != '\r'

def parse? (text : String) : Option Url := do
  let cs := clean text.toList
  let rest ← if Text.lower (cs.take 5) = "http:".toList then some (cs.drop 5) else none
  let rest := rest.dropWhile isSlash
  let isEnd (c : Char) : Bool := isSlash c || c = '?' || c = '#'
  let host := Text.lower (withoutPort (rest.takeWhile (!isEnd ·)))
  if host = [] then none else
  return ⟨String.ofList host, String.ofList (targetOf (rest.dropWhile (!isEnd ·)))⟩

end Url
end TurtleBoard
