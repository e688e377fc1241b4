import TurtleBoard.Number.Scalar
import TurtleBoard.Text

/-! Colors as people write them: names, `#rrggbb`, `rgb(r, g, b)` and `rgba(r, g, b, a)`.
Each comes with an alpha, which is one unless it is written. -/
namespace TurtleBoard

inductive NamedColor where
  | black | red | green | yellow | blue | magenta | cyan | white
  deriving DecidableEq, Repr

inductive Color where
  | named (name : NamedColor)
  | rgb (r g b : UInt8)
  deriving DecidableEq, Repr

namespace Color

def names : List (String × Color) := [
  ("black", named .black), ("red", named .red), ("green", named .green), ("yellow", named .yellow),
  ("blue", named .blue), ("magenta", named .magenta), ("fuschia", named .magenta), ("fuchsia", named .magenta),
  ("cyan", named .cyan), ("white", named .white),
  ("original", rgb 106 215 229), ("periwinkle", rgb 150 160 255), ("orange", rgb 255 165 0),
  ("lime-green", rgb 50 205 50), ("lime", rgb 50 205 50), ("forest-green", rgb 34 139 34),
  ("purple", rgb 128 0 128), ("gray", rgb 128 128 128), ("grey", rgb 128 128 128), ("brown", rgb 139 69 19),
  ("hot-pink", rgb 255 105 180), ("pink", rgb 255 105 180)]

def ofHex? (digits : List Char) : Option Color :=
  match digits with
  | [r, r', g, g', b, b'] => do
      return rgb (← Text.hexByte? [r, r']) (← Text.hexByte? [g, g']) (← Text.hexByte? [b, b'])
  | _ => none

def ofChannels? (args : List (List Char)) : Option (Color × Float) :=
  match args with
  | [r, g, b] => do return (rgb (← Text.byte? r) (← Text.byte? g) (← Text.byte? b), 1.0)
  | [r, g, b, a] => do
      let color := rgb (← Text.byte? r) (← Text.byte? g) (← Text.byte? b)
      return (color, Scalar.clamp 0.0 1.0 (← Number.read? a))
  | _ => none

def arguments? (cs : List Char) : Option (List (List Char)) := do
  let rest ← (Text.dropPrefix? "rgba(".toList cs).or (Text.dropPrefix? "rgb(".toList cs)
  let inside ← Text.dropSuffix? ")".toList rest
  return (Text.fields (· == ',') inside).map Text.trim

def parse? (text : List Char) : Option (Color × Float) :=
  match Text.lower (Text.trim text) with
  | '#' :: digits => (ofHex? digits).map (·, 1.0)
  | cs =>
      match arguments? cs with
      | some args => ofChannels? args
      | none => ((names.find? (·.1.toList == cs)).map (·.2, 1.0))

end Color
end TurtleBoard
