import TurtleBoard.Proofs.Board
import TurtleBoard.Proofs.Layers
import TurtleBoard.Proofs.Ruling
import TurtleBoard.Proofs.Sampling

/-! Where newcomers are placed. The offsets that draws can give are the whole points of a range about the center, as
wide as a fraction of the board. In exact arithmetic a newcomer is half of that fraction away at most, so that it stands
on the board; its right and lower edges are no part of it. -/
namespace TurtleBoard

namespace Spawn

def InRange (span x : Int) : Prop := if span ≤ 0 then x = 0 else -(span / 2) ≤ x ∧ x ≤ span - 1 - span / 2

theorem coordinateInRange (span : Int) (draws : Draws) : InRange span (coordinate span draws).1 := by
  rw [InRange, coordinate]
  split
  · rfl
  · rename_i some
    have below : (draws.below span.toNat).1 < span.toNat := by
      cases draws with
      | nil => change 0 < span.toNat; omega
      | cons d rest => exact Nat.mod_lt d (by omega)
    dsimp only
    omega

theorem coordinateReached {span x : Int} (inside : InRange span x) (later : Draws) :
    ∃ draws, coordinate span draws = (x, later) := by
  rw [InRange] at inside
  by_cases none : span ≤ 0
  · rw [if_pos none] at inside
    exact ⟨later, by rw [coordinate, if_pos none, inside]⟩
  · rw [if_neg none] at inside
    refine ⟨(x + span / 2).toNat :: later, ?_⟩
    have small : (x + span / 2).toNat % span.toNat = (x + span / 2).toNat := Nat.mod_eq_of_lt (by omega)
    simp only [coordinate, if_neg none, Draws.below, small, Prod.mk.injEq, and_true]
    omega

section offsets
variable {α : Type} [Scalar α]

inductive InRanges (width height fraction : α) : Point α → Prop where
  | whole {x y : Int} (across : InRange (span width fraction) x) (down : InRange (span height fraction) y) :
      InRanges width height fraction ⟨Scalar.ofInt x, Scalar.ofInt y⟩

theorem offsetDrawn (width height fraction : α) (draws : Draws) :
    InRanges width height fraction (offset width height fraction draws).1 :=
  .whole (coordinateInRange _ _) (coordinateInRange _ _)

theorem offsetIff {width height fraction : α} {p : Point α} :
    (∃ draws, (offset width height fraction draws).1 = p) ↔ InRanges width height fraction p := by
  constructor
  · rintro ⟨draws, rfl⟩
    exact offsetDrawn width height fraction draws
  · rintro ⟨across, down⟩
    obtain ⟨second, y⟩ := coordinateReached down []
    obtain ⟨draws, x⟩ := coordinateReached across second
    refine ⟨draws, ?_⟩
    simp only [offset, x, y]

end offsets

section exact
variable {extent fraction : Rat}

theorem spanFits (low : Number.minWord ≤ Number.truncate (extent * fraction))
    (high : Number.truncate (extent * fraction) ≤ Number.maxWord) :
    span extent fraction = Number.truncate (extent * fraction) := Scalar.holdInside low high

theorem spanWhole (least : 0 ≤ fraction) (most : fraction ≤ 1) (nonneg : 0 ≤ extent) (short : extent ≤ Number.maxWord) :
    span extent fraction = Number.truncate (extent * fraction) := by
  have some : 0 ≤ extent * fraction := mul_nonneg nonneg least
  have part : extent * fraction ≤ extent := mul_le_of_le_one_right nonneg most
  have floor : Number.truncate (extent * fraction) = (extent * fraction).floor := Number.truncateNonneg some
  have low : 0 ≤ (extent * fraction).floor := Rat.le_floor_iff.mpr (by exact_mod_cast some)
  have high : ((extent * fraction).floor : Rat) ≤ Number.maxWord := (Rat.floor_le _).trans (part.trans short)
  have least : Number.minWord ≤ 0 := by decide
  refine spanFits ?_ ?_
  · omega
  · rw [floor]
    exact_mod_cast high

theorem spanOfCanvas (least : 0 ≤ fraction) (most : fraction ≤ 1) {cols rows : Nat} (wide : cols ≤ Canvas.maxCells)
    (high : rows ≤ Canvas.maxCells) :
    span (Raster.pixelSize cols rows).1 fraction = Number.truncate ((Raster.pixelSize cols rows).1 * fraction) ∧
      span (Raster.pixelSize cols rows).2 fraction = Number.truncate ((Raster.pixelSize cols rows).2 * fraction) := by
  have far : 2 * (Canvas.maxCells : Rat) ≤ Number.maxWord := by decide +kernel
  have wide : (cols : Rat) ≤ Canvas.maxCells := by exact_mod_cast wide
  have high : (rows : Rat) ≤ Canvas.maxCells := by exact_mod_cast high
  rw [Raster.pixelSizeRat]
  exact ⟨spanWhole least most (by positivity) (by linarith), spanWhole least most (by positivity) (by linarith)⟩

theorem spanWithin (some : 0 < span extent fraction) : (span extent fraction : Rat) ≤ extent * fraction := by
  have held : span extent fraction = Scalar.hold _ _ (Number.truncate (extent * fraction)) := rfl
  have low : Number.minWord < 0 := by decide
  have most : span extent fraction ≤ Number.truncate (extent * fraction) := by
    rw [Scalar.hold] at held
    split at held
    · omega
    · split at held <;> omega
  have nonneg : 0 ≤ extent * fraction := by
    by_contra negative
    have floor : (extent * fraction).floor < 0 := Rat.floor_lt_iff.mpr (by exact_mod_cast not_le.mp negative)
    have above := (Number.truncateFloor (extent * fraction)).2
    omega
  rw [Number.truncateNonneg nonneg] at most
  exact le_trans (by exact_mod_cast most) (Rat.floor_le _)

theorem rangeWithin {span x : Int} (inside : InRange span x) :
    x = 0 ∨ 0 < span ∧ -span ≤ 2 * x ∧ 2 * x ≤ span - 1 := by
  rw [InRange] at inside
  split at inside <;> omega

theorem halfWithin {x : Int} (inside : InRange (span extent fraction) x) :
    |(x : Rat)| ≤ max 0 (extent * fraction) / 2 := by
  rcases rangeWithin inside with rfl | ⟨some, left, right⟩
  · rw [Int.cast_zero, abs_zero]
    positivity
  · have within := spanWithin some
    have left : -(span extent fraction : Rat) ≤ 2 * x := by exact_mod_cast left
    have right : 2 * (x : Rat) ≤ span extent fraction - 1 := by exact_mod_cast right
    have whole := le_max_right 0 (extent * fraction)
    rw [abs_le]
    constructor <;> linarith

/- The center moved by an offset stays inside an axis: on its left end at worst, and never on its right end. -/
theorem axisWithin {x : Int} (most : fraction ≤ 1) (pos : 0 < extent) (inside : InRange (span extent fraction) x) :
    0 ≤ extent / 2 + x ∧ extent / 2 + x < extent := by
  rcases rangeWithin inside with rfl | ⟨some, left, right⟩
  · rw [Int.cast_zero]
    constructor <;> linarith
  · have within := spanWithin some
    have part : extent * fraction ≤ extent := mul_le_of_le_one_right pos.le most
    have left : -(span extent fraction : Rat) ≤ 2 * x := by exact_mod_cast left
    have right : 2 * (x : Rat) ≤ span extent fraction - 1 := by exact_mod_cast right
    constructor <;> linarith

end exact

structure OnBoard (width height : Rat) (p : Point Rat) : Prop where
  left : 0 ≤ p.x
  right : p.x < width
  top : 0 ≤ p.y
  bottom : p.y < height

theorem drawnOnBoard {width height fraction : Rat} {offset : Point Rat} (most : fraction ≤ 1) (wide : 0 < width)
    (high : 0 < height) (drawn : InRanges width height fraction offset) :
    OnBoard width height (canvasPoint width height offset Point.origin) := by
  cases drawn with
  | @whole x y across down =>
    obtain ⟨left, right⟩ := axisWithin most wide across
    obtain ⟨top, bottom⟩ := axisWithin most high down
    have place : canvasPoint width height ⟨Scalar.ofInt x, Scalar.ofInt y⟩ Point.origin =
        ⟨width / 2 + x, height / 2 + y⟩ := by
      change (⟨width / 2 + x + 0, height / 2 + y + 0⟩ : Point Rat) = _
      rw [add_zero, add_zero]
    rw [place]
    exact ⟨left, right, top, bottom⟩

end Spawn

namespace Board

structure Spawned (b : Board) (actor : Actor) (placement : Placement) : Prop where
  drawn : Spawn.InRanges b.width b.height b.config.spawnFraction actor.offset
  placed : placement.position = Spawn.canvasPoint b.width b.height actor.offset Point.origin

theorem addSpawned (b : Board) (newcomer : Newcomer) (now : Duration) {id : String} {placement : Placement}
    (mem : Call.place id placement ∈ (b.add newcomer now).2) :
    ∃ actor, (b.add newcomer now).1.actors.get? id = some actor ∧ b.Spawned actor placement := by
  rcases List.mem_cons.mp mem with spawn | mem
  · contradiction
  · cases List.mem_singleton.mp mem
    exact ⟨_, OrderedMap.getInsertSelf _ _ _, Spawn.offsetDrawn _ _ _ _, rfl⟩

theorem connectSpawned (b : Board) (now : Duration) (newcomers : List Newcomer) {id : String} {placement : Placement}
    (mem : Call.place id placement ∈ (b.connect now newcomers).2.1) :
    ∃ actor, (b.connect now newcomers).1.actors.get? id = some actor ∧ b.Spawned actor placement := by
  have kept := connectInduct
    (P := fun after calls => (after.width = b.width ∧ after.height = b.height ∧ after.config = b.config) ∧
      ∀ id placement, Call.place id placement ∈ calls →
        ∃ actor, after.actors.get? id = some actor ∧ b.Spawned actor placement)
    [] now newcomers ⟨⟨rfl, rfl, rfl⟩, fun _ _ mem => nomatch mem⟩ ?_
  · exact kept.2 id placement mem
  · rintro after done newcomer absent ⟨⟨width, height, config⟩, placed⟩
    refine ⟨⟨width, height, config⟩, ?_⟩
    intro id placement mem
    rcases List.mem_append.mp mem with mem | mem
    · obtain ⟨actor, here, spawned⟩ := placed id placement mem
      have other : id ≠ newcomer.id := by
        rintro rfl
        rw [OrderedMap.getAbsent absent] at here
        contradiction
      exact ⟨actor, ((addGet after newcomer now id).1 other).trans here, spawned⟩
    · obtain ⟨actor, here, drawn, place⟩ := addSpawned after newcomer now mem
      rw [width, height, config] at drawn
      rw [width, height] at place
      exact ⟨actor, here, drawn, place⟩

end Board

namespace Spawn

/- Newcomers start on the board. A board draws their offsets in its own arithmetic and places them there; in the exact
one the offsets are near enough to the center. -/
theorem startsOnBoard (width height fraction : Rat) (least : 0 ≤ fraction) (most : fraction ≤ 1) :
    (∀ cols ≤ Canvas.maxCells, ∀ rows ≤ Canvas.maxCells,
        span (Raster.pixelSize cols rows).1 fraction = Number.truncate ((Raster.pixelSize cols rows).1 * fraction) ∧
          span (Raster.pixelSize cols rows).2 fraction = Number.truncate ((Raster.pixelSize cols rows).2 * fraction)) ∧
      (∀ extent, Number.minWord ≤ Number.truncate (extent * fraction) →
        Number.truncate (extent * fraction) ≤ Number.maxWord →
          span extent fraction = Number.truncate (extent * fraction)) ∧
      (∀ p, (∃ draws, (offset width height fraction draws).1 = p) ↔ InRanges width height fraction p) ∧
      (∀ extent x, InRange (span extent fraction) x → |(x : Rat)| ≤ max 0 (extent * fraction) / 2) ∧
      (0 < width → 0 < height → ∀ draws,
        OnBoard width height (canvasPoint width height (offset width height fraction draws).1 Point.origin)) ∧
      ∀ (b : Board) (now : Duration) (newcomers : List Newcomer) (id : String) (placement : Placement),
        Call.place id placement ∈ (b.connect now newcomers).2.1 →
          ∃ actor, (b.connect now newcomers).1.actors.get? id = some actor ∧ b.Spawned actor placement := by
  refine ⟨?_, fun extent => spanFits, fun p => offsetIff, fun extent x => halfWithin, ?_, ?_⟩
  · intro cols wide rows high
    exact spanOfCanvas least most wide high
  · intro wide high draws
    exact drawnOnBoard most wide high (offsetDrawn width height fraction draws)
  · intro b now newcomers id placement
    exact b.connectSpawned now newcomers

theorem startsOnBoardInCorner :
    ((0 : Rat) ≤ 1 ∧ (1 : Rat) ≤ 1 ∧ 0 < (7 : Rat) ∧ 0 < (4 : Rat)) ∧
      span (7 : Rat) 1 = 7 ∧ OnBoard 7 4 (canvasPoint 7 4 (offset (7 : Rat) 4 1 [6, 3]).1 Point.origin) ∧
      canvasPoint 7 4 (offset (7 : Rat) 4 1 [6, 3]).1 Point.origin = ⟨13 / 2, 3⟩ := by
  have hypotheses : (0 : Rat) ≤ 1 ∧ (1 : Rat) ≤ 1 ∧ 0 < (7 : Rat) ∧ 0 < (4 : Rat) := by decide +kernel
  have starts := startsOnBoard 7 4 1 hypotheses.1 hypotheses.2.1
  have span : span (7 : Rat) 1 = 7 :=
    (starts.2.1 7 (by decide +kernel) (by decide +kernel)).trans (by decide +kernel)
  exact ⟨hypotheses, span, starts.2.2.2.2.1 hypotheses.2.2.1 hypotheses.2.2.2 [6, 3], by decide +kernel⟩

end Spawn
end TurtleBoard
