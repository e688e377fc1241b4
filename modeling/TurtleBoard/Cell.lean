import TurtleBoard.Color

/-! What one cell of the terminal shows, and rectangular grids of cells. -/
namespace TurtleBoard

structure Style where
  fg : Option Color := none
  bg : Option Color := none
  bold : Bool := false
  dim : Bool := false
  deriving DecidableEq, Repr

structure Cell where
  char : Char
  style : Style := {}
  deriving DecidableEq, Repr

namespace Cell
def blank : Cell := ⟨' ', {}⟩
end Cell

structure CellChange where
  x : Nat
  y : Nat
  cell : Cell
  deriving DecidableEq, Repr

structure Grid where
  cols : Nat
  rows : Nat
  cells : Array Cell
  size_eq : cells.size = cols * rows

namespace Grid

def blank (cols rows : Nat) : Grid := ⟨cols, rows, Array.replicate (cols * rows) Cell.blank, by simp⟩

def get? (g : Grid) (x y : Nat) : Option Cell := if x < g.cols then g.cells[y * g.cols + x]? else none

def get (g : Grid) (x y : Nat) : Cell := (g.get? x y).getD Cell.blank

def set (g : Grid) (x y : Nat) (cell : Cell) : Grid :=
  if x < g.cols then
    { g with cells := g.cells.setIfInBounds (y * g.cols + x) cell, size_eq := by simp [g.size_eq] }
  else g

def places (cols rows : Nat) : List (Nat × Nat) :=
  (List.range rows).flatMap fun y => (List.range cols).map fun x => (x, y)

def all (g : Grid) : List CellChange :=
  (places g.cols g.rows).map fun (x, y) => ⟨x, y, g.get x y⟩

def differences (old g : Grid) : List CellChange :=
  (places (min old.cols g.cols) (min old.rows g.rows)).filterMap fun (x, y) =>
    if old.get x y = g.get x y then none else some ⟨x, y, g.get x y⟩

end Grid
end TurtleBoard
