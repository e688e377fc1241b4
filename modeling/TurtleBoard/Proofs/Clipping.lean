import Mathlib.Algebra.Order.Field.Basic
import Mathlib.Algebra.Order.Ring.Rat
import Mathlib.Tactic.Linarith
import Mathlib.Tactic.Ring
import TurtleBoard.Raster

/-! The part of a segment that a rectangle shows, in exact arithmetic. Each edge of the rectangle leaves a range of the
fractions along the segment, or none of them; so the four edges leave exactly the fractions of the points inside. -/
namespace TurtleBoard

namespace Scalar

theorem zeroRat : (zero : Rat) = 0 := rfl

theorem ltRat (a b : Rat) : lt a b = decide (a < b) := rfl

theorem leRat (a b : Rat) : le a b = decide (a ≤ b) := rfl

theorem maxRat (a b : Rat) : Scalar.max a b = a ⊔ b := by
  simp only [Scalar.max, leRat, decide_eq_true_eq]
  grind

theorem minRat (a b : Rat) : Scalar.min a b = a ⊓ b := by
  simp only [Scalar.min, leRat, decide_eq_true_eq]
  grind

theorem absRat (a : Rat) : Scalar.abs a = |a| := by
  simp only [Scalar.abs, ltRat, decide_eq_true_eq, zeroRat]
  split
  · rename_i below
    exact (abs_of_neg below).symm
  · rename_i above
    exact (abs_of_nonneg (not_lt.mp above)).symm

end Scalar

namespace Point

theorem betweenRat (a b : Point Rat) (t : Rat) :
    a.between b t = ⟨(b.x - a.x) * t + a.x, (b.y - a.y) * t + a.y⟩ := rfl

def OnSegment (a b p : Point Rat) : Prop := ∃ t, 0 ≤ t ∧ t ≤ 1 ∧ p = a.between b t

variable {a b : Point Rat} {low high : Rat}

theorem onPart (order : low ≤ high) (p : Point Rat) :
    OnSegment (a.between b low) (a.between b high) p ↔ ∃ t, low ≤ t ∧ t ≤ high ∧ p = a.between b t := by
  have along (u : Rat) :
      (a.between b low).between (a.between b high) u = a.between b (low + (high - low) * u) := by
    simp only [betweenRat, mk.injEq]
    constructor <;> ring
  constructor
  · rintro ⟨u, from0, to1, rfl⟩
    refine ⟨low + (high - low) * u, ?_, ?_, along u⟩
    · have part : 0 ≤ (high - low) * u := mul_nonneg (sub_nonneg.mpr order) from0
      linarith
    · have part : (high - low) * u ≤ high - low := mul_le_of_le_one_right (sub_nonneg.mpr order) to1
      linarith
  · rintro ⟨t, lower, upper, rfl⟩
    rcases order.eq_or_lt with same | more
    · obtain rfl : t = low := le_antisymm (same ▸ upper) lower
      refine ⟨0, le_rfl, zero_le_one, ?_⟩
      rw [along, mul_zero, add_zero]
    · have length : 0 < high - low := sub_pos.mpr more
      refine ⟨(t - low) / (high - low), div_nonneg (sub_nonneg.mpr lower) length.le, ?_, ?_⟩
      · rw [div_le_one length]
        linarith
      · rw [along, mul_div_cancel₀ _ length.ne', add_sub_cancel]

end Point

namespace Raster
open Point (OnSegment)

structure InRectangle (w h : Rat) (p : Point Rat) : Prop where
  left : 0 ≤ p.x
  right : p.x ≤ w
  top : 0 ≤ p.y
  bottom : p.y ≤ h

theorem narrowRat (range : Rat × Rat) (p q : Rat) :
    narrow range p q =
      if p = 0 then if q < 0 then none else some range
      else if p < 0 then if range.2 < q / p then none else some (max range.1 (q / p), range.2)
      else if q / p < range.1 then none else some (range.1, min range.2 (q / p)) := by
  simp only [narrow, Scalar.ltRat, Scalar.maxRat, Scalar.minRat, Scalar.zeroRat, decide_eq_true_eq, beq_iff_eq]

inductive Leaves (has : Rat → Prop) : Option (Rat × Rat) → Prop where
  | nothing (empty : ∀ t, ¬has t) : Leaves has none
  | range {low high : Rat} (order : low ≤ high) (exact : ∀ t, has t ↔ low ≤ t ∧ t ≤ high) :
      Leaves has (some (low, high))

theorem Leaves.congr {has has' : Rat → Prop} {found : Option (Rat × Rat)} (leaves : Leaves has found)
    (same : ∀ t, has' t ↔ has t) : Leaves has' found := by
  cases leaves with
  | nothing empty => exact .nothing fun t here => empty t ((same t).mp here)
  | range order exact => exact .range order fun t => (same t).trans (exact t)

/- One edge: the side of it on which a point is inside is a half of the line, all of it or nothing. -/
theorem Leaves.narrow {has : Rat → Prop} {range : Rat × Rat} (leaves : Leaves has (some range)) (p q : Rat) :
    Leaves (fun t => has t ∧ p * t ≤ q) (narrow range p q) := by
  cases leaves with
  | @range low high order exact =>
    rw [narrowRat]
    rcases lt_trichotomy p 0 with below | rfl | above
    · have side (t : Rat) : p * t ≤ q ↔ q / p ≤ t := by rw [div_le_iff_of_neg below, mul_comm]
      rw [if_neg below.ne, if_pos below]
      split
      · rename_i behind
        refine .nothing fun t here => ?_
        have upper := ((exact t).mp here.1).2
        have lower := (side t).mp here.2
        linarith
      · rename_i before
        refine .range (max_le order (not_lt.mp before)) fun t => ?_
        rw [exact, side, max_le_iff, and_right_comm]
    · simp only [zero_mul, if_true]
      split
      · rename_i outside
        exact .nothing fun t here => not_le.mpr outside here.2
      · rename_i inside
        exact .range order fun t => (and_iff_left (not_lt.mp inside)).trans (exact t)
    · have side (t : Rat) : p * t ≤ q ↔ t ≤ q / p := by rw [le_div_iff₀ above, mul_comm]
      rw [if_neg above.ne', if_neg above.not_gt]
      split
      · rename_i before
        refine .nothing fun t here => ?_
        have lower := ((exact t).mp here.1).1
        have upper := (side t).mp here.2
        linarith
      · rename_i behind
        refine .range (le_min order (not_lt.mp behind)) fun t => ?_
        rw [exact, side, le_min_iff, and_assoc]

theorem Leaves.next {has : Rat → Prop} {found : Option (Rat × Rat)} (leaves : Leaves has found) (p q : Rat) :
    Leaves (fun t => has t ∧ p * t ≤ q) (found.bind (Raster.narrow · p q)) := by
  cases leaves with
  | nothing empty => exact .nothing fun t here => empty t here.1
  | range order exact => exact (Leaves.range order exact).narrow p q

variable (w h : Rat) (start finish : Point Rat)

def Seen (t : Rat) : Prop := (0 ≤ t ∧ t ≤ 1) ∧ InRectangle w h (start.between finish t)

theorem seenIff (t : Rat) : Seen w h start finish t ↔
    ((((0 ≤ t ∧ t ≤ 1) ∧ -(finish.x - start.x) * t ≤ start.x) ∧ (finish.x - start.x) * t ≤ w - start.x) ∧
      -(finish.y - start.y) * t ≤ start.y) ∧ (finish.y - start.y) * t ≤ h - start.y := by
  rw [Seen, Point.betweenRat]
  constructor
  · rintro ⟨within, left, right, top, bottom⟩
    exact ⟨⟨⟨⟨within, by linarith⟩, by linarith⟩, by linarith⟩, by linarith⟩
  · rintro ⟨⟨⟨⟨within, left⟩, right⟩, top⟩, bottom⟩
    exact ⟨within, by linarith, by linarith, by linarith, by linarith⟩

/- The edges are taken one after another, beginning with the whole segment. -/
theorem clipSeen : ∃ found, Leaves (Seen w h start finish) found ∧
    clip? w h start finish =
      found.map fun range => (start.between finish range.1, start.between finish range.2) := by
  have whole : Leaves (fun t => 0 ≤ t ∧ t ≤ 1) (some (0, 1)) := .range zero_le_one fun _ => Iff.rfl
  have edges := (((whole.next (-(finish.x - start.x)) start.x).next (finish.x - start.x) (w - start.x)).next
    (-(finish.y - start.y)) start.y).next (finish.y - start.y) (h - start.y)
  refine ⟨_, edges.congr (seenIff w h start finish), ?_⟩
  simp only [Option.bind_assoc]
  rfl

structure Clipped (first last : Point Rat) : Prop where
  begins : OnSegment start finish first ∧ InRectangle w h first
  ends : OnSegment start finish last ∧ InRectangle w h last
  exact : ∀ p, OnSegment first last p ↔ OnSegment start finish p ∧ InRectangle w h p
  directed : ∃ low high, (0 ≤ low ∧ low ≤ high ∧ high ≤ 1) ∧
    first = start.between finish low ∧ last = start.between finish high ∧
      ∀ t, 0 ≤ t → t ≤ 1 → (InRectangle w h (start.between finish t) ↔ low ≤ t ∧ t ≤ high)

variable {w h start finish}

theorem clippedRange {low high : Rat} (order : low ≤ high)
    (exact : ∀ t, Seen w h start finish t ↔ low ≤ t ∧ t ≤ high) :
    Clipped w h start finish (start.between finish low) (start.between finish high) := by
  obtain ⟨⟨from0, below⟩, lowInside⟩ := (exact low).mpr ⟨le_rfl, order⟩
  obtain ⟨⟨above, to1⟩, highInside⟩ := (exact high).mpr ⟨order, le_rfl⟩
  refine ⟨⟨⟨low, from0, below, rfl⟩, lowInside⟩, ⟨⟨high, above, to1, rfl⟩, highInside⟩, ?_, ?_⟩
  · intro p
    rw [Point.onPart order]
    constructor
    · rintro ⟨t, lower, upper, rfl⟩
      obtain ⟨⟨after, before⟩, inside⟩ := (exact t).mpr ⟨lower, upper⟩
      exact ⟨⟨t, after, before, rfl⟩, inside⟩
    · rintro ⟨⟨t, after, before, rfl⟩, inside⟩
      obtain ⟨lower, upper⟩ := (exact t).mp ⟨⟨after, before⟩, inside⟩
      exact ⟨t, lower, upper, rfl⟩
  · refine ⟨low, high, ⟨from0, order, to1⟩, rfl, rfl, fun t after before => ?_⟩
    rw [← exact, Seen]
    exact (and_iff_right ⟨after, before⟩).symm

theorem clipFound {first last : Point Rat} (found : clip? w h start finish = some (first, last)) :
    Clipped w h start finish first last := by
  obtain ⟨range, leaves, same⟩ := clipSeen w h start finish
  rw [same] at found
  cases leaves with
  | nothing _ => contradiction
  | range order exact =>
    cases found
    exact clippedRange order exact

theorem clipNone :
    clip? w h start finish = none ↔ ∀ p, OnSegment start finish p → ¬InRectangle w h p := by
  obtain ⟨range, leaves, same⟩ := clipSeen w h start finish
  rw [same]
  cases leaves with
  | nothing empty =>
    refine iff_of_true rfl ?_
    rintro p ⟨t, after, before, rfl⟩ inside
    exact empty t ⟨⟨after, before⟩, inside⟩
  | range order exact =>
    have clipped := clippedRange order exact
    exact iff_of_false nofun fun unseen => unseen _ clipped.begins.1 clipped.begins.2

theorem clipsExactly (w h : Rat) (start finish : Point Rat) :
    (clip? w h start finish = none ↔ ∀ p, OnSegment start finish p → ¬InRectangle w h p) ∧
      ∀ first last, clip? w h start finish = some (first, last) → Clipped w h start finish first last :=
  ⟨clipNone, fun _ _ => clipFound⟩

example : clip? 4 6 (⟨-1, 1⟩ : Point Rat) ⟨1, -1⟩ = some (⟨0, 0⟩, ⟨0, 0⟩) ∧
    clip? 4 6 (⟨-2, 1⟩ : Point Rat) ⟨1, -2⟩ = none := by decide +kernel

end Raster
end TurtleBoard
