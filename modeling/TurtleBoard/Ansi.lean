import TurtleBoard.Screen

/-! What is painted on a screen, as text for an ANSI terminal. -/
namespace TurtleBoard.Ansi

def control (parameters final : String) : String := "\x1b[" ++ parameters ++ final

def moveTo (x y : Nat) : String := control (toString (y + 1) ++ ";" ++ toString (x + 1)) "H"

def namedNumber : NamedColor → Nat
  | .black => 0
  | .red => 9
  | .green => 10
  | .yellow => 11
  | .blue => 12
  | .magenta => 13
  | .cyan => 14
  | .white => 15

def color (layer : String) : Color → String
  | .named name => control (layer ++ ";5;" ++ toString (namedNumber name)) "m"
  | .rgb r g b => control (layer ++ ";2;" ++ toString r.toNat ++ ";" ++ toString g.toNat ++ ";" ++ toString b.toNat) "m"

def style (s : Style) : String :=
  ((s.fg.map (color "38")).getD "") ++ ((s.bg.map (color "48")).getD "") ++
    (if s.bold then control "1" "m" else "") ++ (if s.dim then control "2" "m" else "")

def resetStyle : String := control "0" "m"

def paint : Paint → String
  | .clear row => moveTo 0 row ++ control "2" "K"
  | .print x y s text => moveTo x y ++ style s ++ String.ofList text ++ resetStyle

def paints (ps : List Paint) : String := String.join (ps.map paint)

def enter : String := control "?1049" "h" ++ control "?25" "l" ++ control "2" "J"

def leave : String := control "?25" "h" ++ control "?1049" "l"

end TurtleBoard.Ansi
