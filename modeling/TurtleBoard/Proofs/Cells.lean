import TurtleBoard.Proofs.Floats
import TurtleBoard.Proofs.Frames

/-! The cells that a canvas touches for its sprites and lines. A point of numbers gets the cell that it lies in, and
none where the canvas has no such cell. Two kinds of points go astray: what is not a number counts as zero on every
side, and the greatest number below zero is not above the upper edge any more when it is halved. -/
namespace TurtleBoard
open Float.Model

namespace Raster
variable {t : Float}

theorem floorInNaN (nan : t.toModel.unpack = .notANumber) (lo hi : Int) :
    Scalar.floorIn lo hi t = Scalar.hold lo hi 0 := by
  have value : Scalar.value? t = none := by
    change Number.value? t = none
    rw [Number.value?, nan]
  have above : Scalar.lt Scalar.zero t = false := (Number.ltUnpack _ t).trans (by rw [nan]; rfl)
  have below : Scalar.lt t Scalar.zero = false := (Number.ltUnpack t _).trans (by rw [nan]; rfl)
  rw [Scalar.floorIn, Scalar.roundedIn, value]
  simp only [above, below, Bool.false_eq_true, if_false]

theorem floorInInfinity {s : UnpackedFloat.Sign} (infinite : t.toModel.unpack = .infinity s) (lo hi : Int) :
    Scalar.floorIn lo hi t = Scalar.hold lo hi (match s with | .positive => hi | .negative => lo) := by
  have value : Scalar.value? t = none := by
    change Number.value? t = none
    rw [Number.value?, infinite]
  have above : Scalar.lt Scalar.zero t = (s == .positive) :=
    (Number.ltUnpack _ t).trans (by rw [infinite]; cases s <;> rfl)
  have below : Scalar.lt t Scalar.zero = (s == .negative) :=
    (Number.ltUnpack t _).trans (by rw [infinite]; cases s <;> rfl)
  rw [Scalar.floorIn, Scalar.roundedIn, value]
  cases s <;> simp only [above, below] <;> rfl

theorem indexHeld {α : Type} [Scalar α] {t : α} {n : Int} {count : Nat} (self : (t == t) = true)
    (floor : Scalar.floorIn (-1) count t = Scalar.hold (-1) count n) (i : Nat) :
    index? count t = some i ↔ i < count ∧ n = i := by
  have out : (Scalar.hold (-1) count n < 0 ∨ (count : Int) ≤ Scalar.hold (-1) count n) ↔ ¬ (0 ≤ n ∧ n < count) := by
    rw [Scalar.hold]
    split_ifs <;> omega
  have inside (among : 0 ≤ n ∧ n < count) : Scalar.hold (-1) count n = n := by
    rw [Scalar.hold, if_neg (by omega), if_neg (by omega)]
  simp only [index?, self, floor, Bool.true_and, Bool.or_eq_true, decide_eq_true_eq, out]
  by_cases among : 0 ≤ n ∧ n < count
  · rw [if_neg (not_not.mpr among), inside among, Option.some.injEq]
    omega
  · rw [if_pos among]
    exact iff_of_false nofun (by omega)

theorem indexNaN (nan : t.toModel.unpack = .notANumber) (count : Nat) : index? count t = some 0 := by
  have self : (t == t) = false := by
    rw [Number.beqSelf, Float.isNaN, Float.Model.isNaN, nan]
    rfl
  simp only [index?, self, floorInNaN nan, Scalar.hold, Bool.false_and]
  rfl

theorem indexSome {count i : Nat} : index? count t = some i ↔
    t.isNaN = true ∧ i = 0 ∨ i < count ∧ ∃ r, Number.value? t = some r ∧ r.floor = i := by
  cases value : Number.value? t with
  | some r =>
    have floor : Scalar.floorIn (-1) count t = Scalar.hold (-1) count r.floor := by
      have same : Scalar.value? t = some r := value
      rw [Scalar.floorIn, Scalar.roundedIn, same]
    have number := Number.numberOfValue value
    rw [indexHeld (Number.beqNumber number) floor, number]
    simp only [Bool.false_eq_true, false_and, false_or, Option.some.injEq, exists_eq_left']
  | none =>
    simp only [reduceCtorEq, false_and, exists_false, and_false, or_false]
    cases shape : t.toModel.unpack with
    | notANumber =>
      have nan : t.isNaN = true := congrArg UnpackedFloat.isNaN shape
      rw [indexNaN shape, nan, Option.some.injEq, eq_comm, eq_self, true_and]
    | infinity s =>
      have number : t.isNaN = false := congrArg UnpackedFloat.isNaN shape
      rw [indexHeld (Number.beqNumber number) (floorInInfinity shape (-1) count), number]
      refine iff_of_false ?_ fun nan => Bool.false_ne_true nan.1
      rintro ⟨inside, held⟩
      cases s with
      | positive =>
        change (count : Int) = i at held
        omega
      | negative =>
        change (-1 : Int) = i at held
        omega
    | zero s => simp only [Number.value?, shape, reduceCtorEq] at value
    | finite s m e pos => simp only [Number.value?, shape, reduceCtorEq] at value

def Spans (size i : Nat) (c : Float) : Prop := ∃ r, Number.value? c = some r ∧ (size * i : Rat) ≤ r ∧ r < size * (i + 1)

theorem colSome {x : Float} {cols col : Nat} : index? cols (x / cellWidth) = some col ↔
    x.isNaN = true ∧ col = 0 ∨ col < cols ∧ Spans 1 col x := by
  have same : (x / cellWidth).toModel.unpack = x.toModel.unpack := Number.divOne x
  obtain ⟨nan, value⟩ := Number.sameUnpack same
  rw [indexSome, nan, value]
  simp only [Spans, Number.floorEq, Nat.cast_one, one_mul, Int.cast_natCast]

theorem rowSome {y : Float} {rows row : Nat} : index? rows (y / cellHeight) = some row ↔
    y.isNaN = true ∧ row = 0 ∨ row < rows ∧ (Spans 2 row y ∨ row = 0 ∧ Number.value? y = some (-Number.least)) := by
  rw [indexSome, Spans]
  cases value : Number.value? y with
  | none =>
    have same : (y / cellHeight).toModel.unpack = y.toModel.unpack := Number.halfValueless value
    obtain ⟨nan, half⟩ := Number.sameUnpack same
    rw [nan, half, value]
    simp only [reduceCtorEq, false_and, exists_false, and_false, or_false]
  | some r =>
    obtain ⟨q, half, floor⟩ := Number.halfValue value
    have same : Number.value? (y / cellHeight) = some q := half
    rw [Number.numberOfValue value, Number.numberOfValue same, same]
    simp only [Bool.false_eq_true, false_and, false_or, Option.some.injEq, exists_eq_left', floor, Nat.cast_ofNat]
    refine and_congr_right fun _ => ?_
    by_cases stray : r = -Number.least
    · have below : ¬ (2 * row : Rat) ≤ r := by
        have unit := Number.leastPos
        have nonneg : (0 : Rat) ≤ row := Nat.cast_nonneg row
        linarith
      rw [if_pos stray]
      constructor
      · exact fun zero => .inr ⟨by omega, stray⟩
      · rintro (⟨lower, _⟩ | ⟨rfl, _⟩)
        · exact absurd lower below
        · rfl
    · simp only [stray, if_false, and_false, or_false, Number.floorEq, Int.cast_natCast]
      refine and_congr ?_ ?_
      · rw [le_div_iff₀ (by decide), mul_comm]
      · rw [div_lt_iff₀ (by decide), mul_comm]

def InCell (col row : Nat) (p : Point Float) : Prop := Spans 1 col p.x ∧ Spans 2 row p.y

/- A point of numbers, other than those that lie just above the upper edge by the smallest float. -/
structure Plain (p : Point Float) : Prop where
  x : p.x.isNaN = false
  y : p.y.isNaN = false
  above : Number.value? p.y ≠ some (-Number.least)

variable {cols rows : Nat}

theorem cellSome {p : Point Float} {col row : Nat} : cellOf? cols rows p = some (col, row) ↔
    (p.x.isNaN = true ∧ col = 0 ∨ col < cols ∧ Spans 1 col p.x) ∧
      (p.y.isNaN = true ∧ row = 0 ∨
        row < rows ∧ (Spans 2 row p.y ∨ row = 0 ∧ Number.value? p.y = some (-Number.least))) := by
  rw [← colSome, ← rowSome, cellOf?]
  cases index? cols (p.x / cellWidth) <;> cases index? rows (p.y / cellHeight) <;> simp

theorem cellPlain {p : Point Float} (plain : Plain p) {col row : Nat} :
    cellOf? cols rows p = some (col, row) ↔ col < cols ∧ row < rows ∧ InCell col row p := by
  simp only [cellSome, plain.x, plain.y, plain.above, Bool.false_eq_true, false_and, false_or, and_false, or_false]
  exact ⟨fun ⟨⟨left, across⟩, upper, down⟩ => ⟨left, upper, across, down⟩,
    fun ⟨left, upper, across, down⟩ => ⟨⟨left, across⟩, upper, down⟩⟩

theorem cellInside (wide : 0 < cols) (high : 0 < rows) {p : Point Float} {place : Nat × Nat}
    (found : cellOf? cols rows p = some place) : place.1 < cols ∧ place.2 < rows := by
  obtain ⟨across, down⟩ := cellSome.mp found
  constructor
  · rcases across with ⟨_, zero⟩ | ⟨inside, _⟩
    · rwa [zero]
    · exact inside
  · rcases down with ⟨_, zero⟩ | ⟨inside, _⟩
    · rwa [zero]
    · exact inside

theorem cellsFound {start finish : Point Float} {place : Nat × Nat} (mem : place ∈ cells cols rows start finish) :
    ∃ p : Point Float, cellOf? cols rows p = some place := by
  simp only [cells] at mem
  split at mem
  · contradiction
  · obtain ⟨p, _, found⟩ := List.mem_filterMap.mp mem
    exact ⟨p, found⟩

end Raster

namespace Canvas

theorem putSpriteAway {c : Canvas} {sprite : Sprite} {placement : Placement} (g : Grid)
    (placed : sprite.placement = some placement) (plain : Raster.Plain placement.position)
    (away : ∀ col row, col < c.cols → row < c.rows → ¬ Raster.InCell col row placement.position) :
    c.putSprite g sprite = g := by
  have none : Raster.cellOf? c.cols c.rows placement.position = none := by
    refine Option.eq_none_iff_forall_ne_some.mpr fun place found => ?_
    obtain ⟨inside, below, inCell⟩ := (Raster.cellPlain plain).mp found
    exact away place.1 place.2 inside below inCell
  simp only [putSprite, placed, none]

namespace Session

def sizeAfter (size : Nat × Nat) : Act → Nat × Nat
  | .call (.resize width height) _ =>
      ((Scalar.floorIn 0 maxCells (width / Raster.cellWidth)).toNat,
        (Scalar.floorIn 0 maxCells (height / Raster.cellHeight)).toNat)
  | _ => size

theorem afterSize (s : Session) (act : Act) :
    ((s.after act).canvas.cols, (s.after act).canvas.rows) = sizeAfter (s.canvas.cols, s.canvas.rows) act := by
  cases act with
  | invalidate noise => rfl
  | frame => rfl
  | call call noise =>
    cases call with
    | resize width height => rfl
    | line start finish stroke =>
      have keeps : (Call.line start finish stroke).isResize = false := rfl
      obtain ⟨cols, rows, _⟩ := s.canvas.applyKeeps keeps
      exact congrArg₂ Prod.mk cols rows
    | _ => rfl

theorem runSize (cols rows : Nat) (walkFrameSize : Int) (display : Display) (acts : List Act) :
    let c := (run cols rows walkFrameSize display acts).canvas
    (c.cols, c.rows) = acts.foldl sizeAfter (cols, rows) := by
  have onwards (s : Session) : ((acts.foldl after s).canvas.cols, (acts.foldl after s).canvas.rows) =
      acts.foldl sizeAfter (s.canvas.cols, s.canvas.rows) := by
    induction acts generalizing s with
    | nil => rfl
    | cons act acts ih => rw [List.foldl_cons, List.foldl_cons, ih, afterSize]
  exact onwards _

theorem cellsHoldTheirPoints (cols rows : Nat) (walkFrameSize : Int) (display : Display) (acts : List Act) :
    let c := (run cols rows walkFrameSize display acts).canvas
    ((c.cols, c.rows) = acts.foldl sizeAfter (cols, rows) ∧ c.background.cells.size = c.cols * c.rows ∧
      ∀ x y, (c.background.get? x y).isSome = true ↔ x < c.cols ∧ y < c.rows) ∧
      (∀ (p : Point Float) col row, Raster.cellOf? c.cols c.rows p = some (col, row) ↔
        (p.x.isNaN = true ∧ col = 0 ∨ col < c.cols ∧ Raster.Spans 1 col p.x) ∧
          (p.y.isNaN = true ∧ row = 0 ∨ row < c.rows ∧
            (Raster.Spans 2 row p.y ∨ row = 0 ∧ Number.value? p.y = some (-Number.least)))) ∧
      (∀ p, Raster.Plain p → ∀ col row, Raster.cellOf? c.cols c.rows p = some (col, row) ↔
        col < c.cols ∧ row < c.rows ∧ Raster.InCell col row p) ∧
      (0 < c.cols → 0 < c.rows → ∀ (p : Point Float) place, Raster.cellOf? c.cols c.rows p = some place →
        place.1 < c.cols ∧ place.2 < c.rows) ∧
      (∀ start finish : Point Float, ∀ place ∈ Raster.cells c.cols c.rows start finish,
        (∃ p : Point Float, Raster.cellOf? c.cols c.rows p = some place) ∧
          (0 < c.cols → 0 < c.rows → place.1 < c.cols ∧ place.2 < c.rows)) ∧
      ∀ g sprite placement, sprite.placement = some placement → Raster.Plain placement.position →
        (∀ col row, col < c.cols → row < c.rows → ¬ Raster.InCell col row placement.position) →
          c.putSprite g sprite = g := by
  intro c
  refine ⟨⟨runSize cols rows walkFrameSize display acts, c.background.size_eq, c.background.getInside⟩,
    fun _ _ _ => Raster.cellSome, fun _ plain _ _ => Raster.cellPlain plain,
    fun wide high _ _ found => Raster.cellInside wide high found, ?_,
    fun g _ _ placed plain away => putSpriteAway g placed plain away⟩
  intro start finish place mem
  obtain ⟨p, found⟩ := Raster.cellsFound mem
  exact ⟨⟨p, found⟩, fun wide high => Raster.cellInside wide high found⟩

/- A point that has no place at all counts as one in the first column, even where there is none, and one just above the
upper edge as one in the first row. -/
theorem strayPointsTouchCells :
    let nowhere : Point Float := ⟨0.0 / 0.0, 4.0⟩
    let above : Point Float := ⟨0.0, Float.ofBits 0x8000000000000001⟩
    (Raster.cellOf? 20 5 nowhere = some (0, 2) ∧ ¬ Raster.InCell 0 2 nowhere) ∧
      Raster.cellOf? 0 5 nowhere = some (0, 2) ∧
      Raster.cellOf? 20 5 above = some (0, 0) ∧ ¬ Raster.InCell 0 0 above := by
  intro nowhere above
  refine ⟨⟨by decide +kernel, ?_⟩, by decide +kernel, by decide +kernel, ?_⟩
  · rintro ⟨⟨r, value, _⟩, _⟩
    have none : Number.value? nowhere.x = none := by decide +kernel
    rw [none] at value
    contradiction
  · rintro ⟨_, r, value, lower, _⟩
    have shape : (Float.ofBits 0x8000000000000001).toModel.unpack = .finite .negative 1 (-1074) (by decide) := rfl
    obtain rfl := Option.some.inj ((Number.valueFinite shape).symm.trans value)
    have unit := Number.leastPos
    change ((2 : Nat) * (0 : Nat) : Rat) ≤ ((-1 : Int) : Rat) * Number.least at lower
    rw [Nat.cast_zero, mul_zero, Int.cast_neg, Int.cast_one] at lower
    linarith

end Session
end Canvas
end TurtleBoard
