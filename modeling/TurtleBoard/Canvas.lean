import TurtleBoard.Cell
import TurtleBoard.Motion
import TurtleBoard.OrderedMap
import TurtleBoard.Raster

/-! A canvas of cells. Strokes stay on the background; sprites and bubbles lie over it. A frame is what changed since
the frame before, and all of it when none is remembered. -/
namespace TurtleBoard

structure Placement where
  position : Point Float
  angle : Float
  sheetOffset : Int
  deriving Repr

inductive Call where
  | resize (width height : Float)
  | line (start finish : Point Float) (stroke : Stroke Float)
  | spawn (id sprite : String)
  | place (id : String) (placement : Placement)
  | reset (id : String)
  | show (bubble : Nat) (position : Point Float) (text : String)
  | remove (bubble : Nat)
  deriving Repr

structure Sprite where
  color : Color
  placement : Option Placement := none

structure Canvas where
  background : Grid
  sprites : OrderedMap String Sprite := {}
  bubbles : OrderedMap Nat (Point Float × String) := {}
  sent : Option Grid := none
  walkFrameSize : Int := 50

namespace Canvas

def ofSize (cols rows : Nat) (walkFrameSize : Int := 50) : Canvas := { background := .blank cols rows, walkFrameSize }

def cols (c : Canvas) : Nat := c.background.cols
def rows (c : Canvas) : Nat := c.background.rows

def maxCells : Nat := 65535

def resize (c : Canvas) (width height : Float) : Canvas :=
  let cols := Scalar.floorIn 0 maxCells (width / Raster.cellWidth)
  let rows := Scalar.floorIn 0 maxCells (height / Raster.cellHeight)
  { c with background := .blank cols.toNat rows.toNat, sent := none }

def isFaint (alpha : Float) : Bool := Scalar.lt alpha 1.0

def strokeColor (stroke : Stroke Float) : Color × Float :=
  (Color.parse? stroke.color.toList).getD (.named .white, 1.0)

def strokeCell (stroke : Stroke Float) : Cell :=
  let (color, alpha) := strokeColor stroke
  if isFaint alpha then ⟨if Scalar.le 0.15 alpha then '+' else '·', { dim := true }⟩
  else ⟨if Scalar.le 4.0 stroke.width then '█' else '•', { fg := some color }⟩

def isCovered (cell : Cell) : Bool := cell.char != ' ' && !cell.style.dim

def paintCell (stroke : Stroke Float) (g : Grid) (place : Nat × Nat) : Grid :=
  if isFaint (strokeColor stroke).2 && isCovered (g.get place.1 place.2) then g
  else g.set place.1 place.2 (strokeCell stroke)

def drawLine (c : Canvas) (start finish : Point Float) (stroke : Stroke Float) : Canvas :=
  { c with background := (Raster.cells c.cols c.rows start finish).foldl (paintCell stroke) c.background }

def spawn (c : Canvas) (id sprite : String) : Canvas :=
  let color := ((Color.parse? sprite.toList).map (·.1)).getD (.named .cyan)
  { c with sprites := c.sprites.insert id { color } }

def place (c : Canvas) (id : String) (placement : Placement) : Canvas :=
  { c with sprites := c.sprites.modify id fun sprite => { sprite with placement := some placement } }

def reset (c : Canvas) (id : String) : Canvas :=
  { c with sprites := c.sprites.modify id fun sprite => { sprite with placement := none } }

def showBubble (c : Canvas) (bubble : Nat) (position : Point Float) (text : String) : Canvas :=
  { c with bubbles := c.bubbles.insert bubble (position, text) }

def remove (c : Canvas) (bubble : Nat) : Canvas := { c with bubbles := c.bubbles.erase bubble }

def apply (c : Canvas) : Call → Canvas
  | .resize width height => c.resize width height
  | .line start finish stroke => c.drawLine start finish stroke
  | .spawn id sprite => c.spawn id sprite
  | .place id placement => c.place id placement
  | .reset id => c.reset id
  | .show bubble position text => c.showBubble bubble position text
  | .remove bubble => c.remove bubble

def applyAll (c : Canvas) (calls : List Call) : Canvas := calls.foldl apply c

def headings : List Char := ['↑', '↗', '→', '↘', '↓', '↙', '←', '↖']

/- An angle in degrees brought into one turn. A negative rest is brought up by a whole turn in float arithmetic, so that
a tiny one gives the whole turn itself. -/
def wholeTurn (angle : Float) : Option Float :=
  (Scalar.value? angle).map fun r =>
    let rest := Number.ofRat (r - 360 * (Number.truncate (r / 360) : Int))
    if Scalar.lt rest 0.0 then rest + 360.0 else rest

def headingChar (angle : Float) : Char :=
  let sector := ((wholeTurn angle).bind fun turn => (Scalar.value? (turn / 45.0)).map Number.roundHalfAway).getD 0
  headings.getD (sector.toNat % headings.length) '↑'

def isBold (sheetOffset walkFrameSize : Int) : Bool := (sheetOffset.tdiv (max walkFrameSize 1)).tmod 2 == 0

def spriteCell (c : Canvas) (sprite : Sprite) (placement : Placement) : Cell :=
  ⟨headingChar placement.angle, { fg := some sprite.color, bold := isBold placement.sheetOffset c.walkFrameSize }⟩

def putSprite (c : Canvas) (g : Grid) (sprite : Sprite) : Grid :=
  match sprite.placement with
  | none => g
  | some placement =>
      match Raster.cellOf? c.cols c.rows placement.position with
      | some (x, y) => g.set x y (c.spriteCell sprite placement)
      | none => g

def bubbleStyle : Style := { fg := some (.named .black), bg := some (.named .white) }

def label (text : String) : List Char := ' ' :: (text.toList ++ [' '])

def labelStart (x : Float) (length : Nat) : Int :=
  Scalar.floorIn Number.minWord Number.maxWord (x / Raster.cellWidth) - length / 2

def putLabel (row : Nat) : Int → List Char → Grid → Grid
  | _, [], g => g
  | column, c :: cs, g =>
      putLabel row (column + 1) cs
        (if 0 ≤ column ∧ column < g.cols then g.set column.toNat row ⟨c, bubbleStyle⟩ else g)

def putBubble (g : Grid) (bubble : Point Float × String) : Grid :=
  let row := Scalar.floorIn Number.minWord Number.maxWord (bubble.1.y / Raster.cellHeight)
  if row < 0 ∨ (g.rows : Int) ≤ row then g
  else putLabel row.toNat (labelStart bubble.1.x (label bubble.2).length) (label bubble.2) g

def compose (c : Canvas) : Grid :=
  c.bubbles.values.foldl putBubble (c.sprites.values.foldl c.putSprite c.background)

def frameChanges (c : Canvas) : List CellChange × Canvas :=
  let picture := c.compose
  let changes :=
    match c.sent with
    | none => picture.all
    | some sent => sent.differences picture
  (changes, { c with sent := some picture })

def invalidate (c : Canvas) : Canvas := { c with sent := none }

end Canvas
end TurtleBoard
