import TurtleBoard.Config
import TurtleBoard.Screen
import TurtleBoard.Text

/-! The menu bar: what the keys do, with the names of the keys in bold. -/
namespace TurtleBoard

structure Span where
  style : Style
  text : List Char
  deriving DecidableEq, Repr

namespace Menu

def isBracket (c : Char) : Bool := c == '[' || c == ']'

def items (keys : KeyBindings) (reportsReleases : Bool) : List String := [
  "[" ++ keys.accelerateHold ++ "] " ++ (if reportsReleases then "hold" else "toggle") ++ " fast",
  "[" ++ keys.accelerateLatch ++ "] fast until a stride lands",
  "[" ++ keys.quit ++ "][Esc] quit"]

def styled : (isKey : Bool) → List (List Char) → List Span
  | _, [] => []
  | isKey, part :: parts =>
      let rest := styled (!isKey) parts
      if part.isEmpty then rest
      else if isKey then ⟨{ bold := true }, '[' :: (part ++ [']'])⟩ :: rest
      else ⟨{ dim := true }, part⟩ :: rest

def spans (item : List Char) : List Span := styled false (Text.fields isBracket item)

def plain (text : String) : Span := ⟨{}, text.toList⟩

def line (keys : KeyBindings) (reportsReleases : Bool) : List Span :=
  let shown := (items keys reportsReleases).map fun item => spans item.toList
  plain " " :: (shown.intersperse [plain "  "]).flatten

def printSpans (y : Nat) : Nat → List Span → List Paint
  | _, [] => []
  | x, span :: spans => .print x y span.style span.text :: printSpans y (x + span.text.length) spans

def paints (keys : KeyBindings) (reportsReleases : Bool) : List Paint :=
  .clear 0 :: printSpans 0 0 (line keys reportsReleases)

end Menu
end TurtleBoard
