import TurtleBoard.Cell
import TurtleBoard.Text

/-! The screen of a terminal: cells that are changed by clearing rows and by printing text. What would lie beyond the
right edge or below the last row is dropped. -/
namespace TurtleBoard

inductive Paint where
  | clear (row : Nat)
  | print (x y : Nat) (style : Style) (text : List Char)
  deriving DecidableEq, Repr

namespace Grid

def clearRow (y : Nat) (g : Grid) : Grid := (List.range g.cols).foldl (fun g x => g.set x y Cell.blank) g

def print (y : Nat) (style : Style) : Nat → List Char → Grid → Grid
  | _, [], g => g
  | x, c :: cs, g => print y style (x + 1) cs (g.set x y ⟨c, style⟩)

def paint (g : Grid) : Paint → Grid
  | .clear row => g.clearRow row
  | .print x y style text => g.print y style x text

def paintAll (g : Grid) (paints : List Paint) : Grid := paints.foldl paint g

def fit (g : Grid) (cols rows : Nat) : Grid :=
  (places cols rows).foldl (fun fitted place => fitted.set place.1 place.2 (g.get place.1 place.2)) (blank cols rows)

def rowText (g : Grid) (y : Nat) : List Char := (List.range g.cols).map fun x => (g.get x y).char

def hasText (g : Grid) (text : List Char) : Bool := (List.range g.rows).any fun y => Text.contains text (g.rowText y)

end Grid
end TurtleBoard
