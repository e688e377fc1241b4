import TurtleBoard.Point

/-! Lines on a grid of cells: the part of a segment that a rectangle shows, points along it, and the cell of a point.
A cell is one pixel wide and two pixels high. -/
namespace TurtleBoard.Raster
variable {α : Type} [Scalar α]

def cellWidth : α := Scalar.ofInt 1
def cellHeight : α := Scalar.ofInt 2

def pixelSize (cols rows : Nat) : α × α := (Scalar.ofInt cols * cellWidth, Scalar.ofInt rows * cellHeight)

/- The index of the cell that holds a coordinate, given in cells. Only a number can be out of range: what is not a
number counts as zero and is in range on every side, also on one without cells. -/
def index? (count : Nat) (t : α) : Option Nat :=
  let i := Scalar.floorIn (-1) count t
  if t == t && (i < 0 || (count : Int) ≤ i) then none else some i.toNat

def cellOf? (cols rows : Nat) (p : Point α) : Option (Nat × Nat) :=
  match index? cols (p.x / cellWidth), index? rows (p.y / cellHeight) with
  | some col, some row => some (col, row)
  | _, _ => none

def narrow (range : α × α) (p q : α) : Option (α × α) :=
  if p == Scalar.zero then
    if Scalar.lt q Scalar.zero then none else some range
  else if Scalar.lt p Scalar.zero then
    if Scalar.lt range.2 (q / p) then none else some (Scalar.max range.1 (q / p), range.2)
  else
    if Scalar.lt (q / p) range.1 then none else some (range.1, Scalar.min range.2 (q / p))

def isFinite (p : Point α) : Bool := Scalar.isFinite p.x && Scalar.isFinite p.y

def clip? (w h : α) (start finish : Point α) : Option (Point α × Point α) :=
  if isFinite start && isFinite finish then
    let dx := finish.x - start.x
    let dy := finish.y - start.y
    let range := do
      let range ← narrow (Scalar.zero, Scalar.one) (-dx) start.x
      let range ← narrow range dx (w - start.x)
      let range ← narrow range (-dy) start.y
      narrow range dy (h - start.y)
    range.map fun (t₀, t₁) => (start.between finish t₀, start.between finish t₁)
  else none

def stepCount (start finish : Point α) : Nat :=
  let across := Scalar.abs ((finish.x - start.x) / cellWidth)
  let down := Scalar.abs ((finish.y - start.y) / cellHeight)
  (Scalar.ceilIn 1 (Number.wordLimit - 1) (Scalar.max across down)).toNat

def samples (start finish : Point α) : List (Point α) :=
  let steps := stepCount start finish
  (List.range (steps + 1)).map fun (i : Nat) => start.between finish (Scalar.ofInt i / Scalar.ofInt steps)

def cells (cols rows : Nat) (start finish : Point α) : List (Nat × Nat) :=
  let (w, h) := pixelSize cols rows
  match clip? w h start finish with
  | none => []
  | some (start, finish) => (samples start finish).filterMap (cellOf? cols rows)

end TurtleBoard.Raster
