import Mathlib.Data.Nat.Periodic
import TurtleBoard.Proofs.Ruling
import TurtleBoard.Proofs.SheetWords

/-! The walk cycle swings back and forth. Its frames go up to the last one and down to the first one again, which is
shown once in each period while the others are shown twice, and two neighbours never differ by more than one. Up to
`2^30` frames all of it is computed in 32 bits. -/
namespace TurtleBoard

namespace Number
open Float.Model Float.Model.UnpackedFloat

theorem leUnpack (x y : Float) : Float.le x y = x.toModel.unpack.le y.toModel.unpack := Bool.decide_coe _

theorem notAbove {x : Float} (low : Scalar.le x Scalar.zero = true ∨ x.isNaN = true) :
    Scalar.lt Scalar.zero x = false := by
  change Float.le x (Float.ofInt 0) = true ∨ x.toModel.unpack.isNaN = true at low
  change Float.lt (Float.ofInt 0) x = false
  rw [leUnpack, unpackZero] at low
  rw [ltUnpack, unpackZero]
  cases shape : x.toModel.unpack with
  | notANumber => rfl
  | zero s => rfl
  | infinity s =>
    rw [shape] at low
    cases s with
    | negative => rfl
    | positive => rcases low with below | none <;> contradiction
  | finite s m e pos =>
    rw [shape] at low
    cases s with
    | negative => rfl
    | positive => rcases low with below | none <;> contradiction

end Number

namespace Walk

theorem periodPos (frames : Nat) : 0 < period frames := Nat.zero_lt_of_lt (standingIn frames).2

/- The frame at a place of the cycle, counted from the first frame: the second half is the first one mirrored. -/
def turned (frames turn : Nat) : Nat := if turn < max frames 1 then turn else period frames - turn

theorem frameTurned (frames strides : Nat) :
    frameAt frames strides = turned frames ((strides + standing frames) % period frames) := by
  rw [frameAt, Nat.mod_add_mod]
  rfl

theorem turnedIff {frames turn frame : Nat} (turning : turn < period frames) (inside : frame < max frames 1) :
    turned frames turn = frame ↔ turn = frame ∨ frame ≠ 0 ∧ turn = period frames - frame := by
  unfold turned period at *
  split <;> omega

theorem frameAgain (frames strides : Nat) : frameAt frames (strides + period frames) = frameAt frames strides := by
  rw [frameTurned, frameTurned, Nat.add_right_comm, Nat.add_mod_right]

theorem turnNext (frames strides : Nat) :
    let turn := (strides + standing frames) % period frames
    (strides + 1 + standing frames) % period frames = if turn + 1 = period frames then 0 else turn + 1 := by
  intro turn
  have below : turn < period frames := Nat.mod_lt _ (periodPos frames)
  have next : (strides + 1 + standing frames) % period frames = (turn + 1) % period frames := by
    rw [Nat.add_right_comm, Nat.mod_add_mod]
  rw [next]
  split
  · rename_i last
    rw [last, Nat.mod_self]
  · exact Nat.mod_eq_of_lt (by omega)

theorem frameNext (frames strides : Nat) :
    frameAt frames (strides + 1) ≤ frameAt frames strides + 1 ∧
      frameAt frames strides ≤ frameAt frames (strides + 1) + 1 := by
  have below := Nat.mod_lt (strides + standing frames) (periodPos frames)
  rw [frameTurned, frameTurned, turnNext]
  generalize (strides + standing frames) % period frames = turn at below ⊢
  unfold turned period at *
  split <;> split <;> split <;> omega

theorem frameFrom (frames : Nat) {turn : Nat} (below : turn < period frames) :
    frameAt frames (period frames - standing frames + turn) = turned frames turn := by
  have start : period frames - standing frames + turn + standing frames = period frames + turn := by
    have := (standingIn frames).2
    omega
  rw [frameTurned, start, Nat.add_mod_left, Nat.mod_eq_of_lt below]

theorem shownFrom (frames : Nat) {frame : Nat} (inside : frame < max frames 1) :
    let first := period frames - standing frames
    (Finset.Ico first (first + period frames)).filter (frameAt frames · = frame) =
      if frame = 0 then {first} else {first + frame, first + (period frames - frame)} := by
  intro first
  have wide : max frames 1 ≤ period frames := by unfold period; omega
  ext s
  rw [Finset.mem_filter, Finset.mem_Ico]
  constructor
  · rintro ⟨⟨least, most⟩, shown⟩
    obtain ⟨turn, rfl⟩ := Nat.exists_eq_add_of_le least
    rw [frameFrom frames (by omega), turnedIff (by omega) inside] at shown
    split <;> simp only [Finset.mem_singleton, Finset.mem_insert] <;> omega
  · intro mem
    have found : ∃ turn, turn < period frames ∧ s = first + turn ∧
        (turn = frame ∨ frame ≠ 0 ∧ turn = period frames - frame) := by
      split at mem
      · rename_i none
        exact ⟨0, periodPos frames, Finset.mem_singleton.mp mem, .inl none.symm⟩
      · rename_i some
        rcases Finset.mem_insert.mp mem with rfl | mem
        · exact ⟨frame, by omega, rfl, .inl rfl⟩
        · exact ⟨_, by omega, Finset.mem_singleton.mp mem, .inr ⟨some, rfl⟩⟩
    obtain ⟨turn, below, rfl, shown⟩ := found
    refine ⟨by omega, ?_⟩
    rw [frameFrom frames below, turnedIff below inside]
    exact shown

theorem visits (frames strides : Nat) {frame : Nat} (inside : frame < max frames 1) :
    ((Finset.Ico strides (strides + period frames)).filter (frameAt frames · = frame)).card =
      if frame = 0 then 1 else 2 := by
  have again : Function.Periodic (frameAt frames · = frame) (period frames) := by
    intro strides
    simp only [frameAgain]
  have anywhere (s : Nat) := Nat.filter_Ico_card_eq_of_periodic s (period frames) _ again
  rw [anywhere, ← anywhere (period frames - standing frames), shownFrom frames inside]
  split
  · exact Finset.card_singleton _
  · refine Finset.card_pair ?_
    unfold period
    omega

section strided
variable {α : Type} [Scalar α]

structure Strided (distance frameDistance : α) (strides : Nat) : Prop where
  spaced : Scalar.lt Scalar.zero frameDistance = true
  away : Scalar.lt Scalar.zero distance = true
  counted : ∃ quotient, Scalar.value? (distance / frameDistance) = some quotient ∧ strides ≤ quotient ∧
    quotient < strides + 1

theorem frameStrided {distance frameDistance : α} {strides : Nat} (strided : Strided distance frameDistance strides)
    (fits : strides < Number.wordLimit) (frames : Nat) :
    frame distance frameDistance frames = frameAt frames strides := by
  obtain ⟨quotient, value, least, most⟩ := strided.counted
  have nonneg : 0 ≤ quotient := le_trans (Nat.cast_nonneg strides) least
  have floor : quotient.floor = strides := Number.floorEq.mpr ⟨by exact_mod_cast least, by exact_mod_cast most⟩
  have held : Scalar.hold 0 (Number.wordLimit - 1) strides = strides := Scalar.holdInside (by omega) (by omega)
  rw [frame, Walk.strides, strided.spaced, strided.away, Scalar.truncIn, Scalar.roundedIn, value]
  simp only [Bool.and_self, if_true, Number.truncateNonneg nonneg, floor, held, Int.toNat_natCast]

theorem frameUnstrided {distance frameDistance : α}
    (none : Scalar.lt Scalar.zero frameDistance = false ∨ Scalar.lt Scalar.zero distance = false) (frames : Nat) :
    frame distance frameDistance frames = frameAt frames 0 := by
  have stopped : (Scalar.lt Scalar.zero frameDistance && Scalar.lt Scalar.zero distance) = false := by
    rw [Bool.and_eq_false_iff]
    exact none
  rw [frame, Walk.strides, stopped]
  rfl

end strided

theorem frameBetween {distance frameDistance : Rat} {strides : Nat} (spaced : 0 < frameDistance)
    (least : strides * frameDistance ≤ distance) (most : distance < (strides + 1) * frameDistance)
    (fits : strides < Number.wordLimit) (frames : Nat) :
    frame distance frameDistance frames = frameAt frames strides := by
  have nonneg : 0 ≤ distance := le_trans (by positivity) least
  rcases nonneg.eq_or_lt with rfl | away
  · obtain rfl : strides = 0 := by
      by_contra more
      have pos : (0 : Rat) < strides * frameDistance := by positivity
      linarith
    exact frameUnstrided (.inr rfl) frames
  · refine frameStrided ⟨decide_eq_true spaced, decide_eq_true away, distance / frameDistance, rfl, ?_, ?_⟩ fits frames
    · exact (le_div_iff₀ spaced).mpr least
    · exact (div_lt_iff₀ spaced).mpr most

theorem fewFit {frames : Nat} (few : frames ≤ 2 ^ 30) (strides : Nat) : CycleFits frames strides := by
  have turn := Nat.mod_lt strides (periodPos frames)
  refine ⟨by omega, ?_⟩
  unfold period standing at *
  omega

structure Swings (frames : Nat) (shown : Nat → Nat) : Prop where
  first : shown 0 = (max frames 1 - 1) / 2
  inside : ∀ strides, shown strides < max frames 1
  adjacent : ∀ strides, shown (strides + 1) ≤ shown strides + 1 ∧ shown strides ≤ shown (strides + 1) + 1
  again : ∀ strides, shown (strides + (2 * max frames 1 - 1)) = shown strides
  visits : ∀ strides, ∀ frame < max frames 1,
    ((Finset.Ico strides (strides + (2 * max frames 1 - 1))).filter (shown · = frame)).card =
      if frame = 0 then 1 else 2

theorem swings (frames : Nat) : Swings frames (frameAt frames) where
  first := frameAtStart frames
  inside := frameInside frames
  adjacent := frameNext frames
  again := frameAgain frames
  visits := by
    intro strides frame inside
    exact visits frames strides inside

/- The frame of a distance is that of its whole frame distances, in exact numbers and in floats, and every value on the
way to it fits in 32 bits. Where no way lies between the frames or behind the walker, it is the frame of no stride. -/
theorem swingsBackAndForth (frames : Nat) (few : frames ≤ 2 ^ 30) :
    Swings frames (frameAt frames) ∧
      (∀ strides < Number.wordLimit, frameInWords? frames strides = some (frameAt frames strides) ∧
        (∀ distance frameDistance : Rat, 0 < frameDistance → strides * frameDistance ≤ distance →
          distance < (strides + 1) * frameDistance →
            frame distance frameDistance frames = frameAt frames strides) ∧
        ∀ distance frameDistance : Float, Strided distance frameDistance strides →
          frame distance frameDistance frames = frameAt frames strides) ∧
      ∀ distance frameDistance : Float,
        Scalar.le frameDistance Scalar.zero = true ∨ Scalar.le distance Scalar.zero = true ∨ distance.isNaN = true →
          frame distance frameDistance frames = frameAt frames 0 := by
  refine ⟨swings frames, ?_, ?_⟩
  · intro strides fits
    refine ⟨frameInWordsIff.mpr ⟨fewFit few strides, rfl⟩, ?_, ?_⟩
    · intro distance frameDistance spaced least most
      exact frameBetween spaced least most fits frames
    · intro distance frameDistance strided
      exact frameStrided strided fits frames
  · intro distance frameDistance stopped
    refine frameUnstrided ?_ frames
    rcases stopped with close | behind | none
    · exact .inl (Number.notAbove (.inl close))
    · exact .inr (Number.notAbove (.inl behind))
    · exact .inr (Number.notAbove (.inr none))

theorem swingsBackAndForthFive :
    let strided : Prop := Strided (7.0 : Float) 2.0 3
    (5 ≤ 2 ^ 30 ∧ 3 < Number.wordLimit ∧ strided) ∧ Swings 5 (frameAt 5) ∧ frame (7.0 : Float) 2.0 5 = frameAt 5 3 := by
  intro strided
  have three : strided := ⟨by decide +kernel, by decide +kernel, 7 / 2, by decide +kernel, by norm_num, by norm_num⟩
  have few : 5 ≤ 2 ^ 30 := by decide
  have fits : 3 < Number.wordLimit := by decide
  have swung := swingsBackAndForth 5 few
  exact ⟨⟨few, fits, three⟩, swung.1, (swung.2.1 3 fits).2.2 _ _ three⟩

end Walk
end TurtleBoard
