/-! Bytes read as UTF-8, one character at a time. A byte that starts no character counts alone, so that text around it
can still be told apart. -/
namespace TurtleBoard.Utf8

/- The characters from byte `i` on; `none` stands for a byte that starts no character. -/
def charsFrom (bytes : ByteArray) (i : Nat) : List (Option Char) :=
  if _h : i < bytes.size then
    match bytes.utf8DecodeChar? i with
    | some c => some c :: charsFrom bytes (i + c.utf8Size)
    | none => none :: charsFrom bytes (i + 1)
  else []
termination_by bytes.size - i
decreasing_by
  · have := c.utf8Size_pos
    omega
  · omega

def chars (bytes : ByteArray) : List (Option Char) := charsFrom bytes 0

def text? (bytes : ByteArray) : Option String := (chars bytes).mapM id |>.map String.ofList

end TurtleBoard.Utf8
