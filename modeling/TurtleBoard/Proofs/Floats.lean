import Mathlib
import TurtleBoard.Number.Scalar

/-! Floats divided by one and by two. A division by one changes nothing. A half is exact, except at the last place of
the smallest floats, where it is rounded to an even significand; so the half of every number has the floor that it
should have, but for the greatest number below zero, whose half is a zero. -/
namespace TurtleBoard.Number
open Float.Model Float.Model.UnpackedFloat

/- A significand at the place where floats have it: with all its digits, or at the last place of the smallest floats. -/
structure Canonical (m : Nat) (e : Int) : Prop where
  pos : 0 < m
  place : e = max (m.log2 + e - 52) (-1074)
  top : e ≤ 971

theorem Canonical.small {m : Nat} {e : Int} (canonical : Canonical m e) : m < 2 ^ 53 := by
  have := canonical.place
  exact (Nat.log2_lt canonical.pos.ne').mp (by omega)

theorem Canonical.smallest {m : Nat} (pos : 0 < m) (small : m < 2 ^ 53) : Canonical m (-1074) := by
  have log := (Nat.log2_lt pos.ne').mpr small
  exact ⟨pos, by omega, by decide⟩

theorem finiteEq {s : Sign} {m n : Nat} {e f : Int} (significand : m = n) (place : e = f) (pos : 0 < m) :
    UnpackedFloat.finite s m e pos = .finite s n f (significand ▸ pos) := by
  subst significand place
  rfl

theorem wholeSignificand (mantissa : BitVec 52) : (1#1 ++ mantissa).toNat = 2 ^ 52 + mantissa.toNat := by
  rw [BitVec.toNat_append, ← Nat.shiftLeft_add_eq_or_of_lt mantissa.isLt]
  rfl

theorem canonicalUnpack {x : Float} {s : Sign} {m : Nat} {e : Int} {pos : 0 < m}
    (shape : x.toModel.unpack = .finite s m e pos) : Canonical m e := by
  rw [Float.Model.unpack] at shape
  generalize x.toModel.toBits.toBitVec = bits at shape
  unfold UnpackedFloat.unpack at shape
  extract_lets mantissa exponent place sign s' at shape
  have small : mantissa.toNat < 2 ^ 52 := mantissa.isLt
  have bound : exponent.toNat < 2 ^ 11 := exponent.isLt
  have bias : place = exponent.toNat - 1075 := rfl
  clear_value place
  split at shape
  · split at shape <;> contradiction
  · rename_i finite
    split at shape
    · rename_i least
      split at shape
      · contradiction
      · obtain ⟨-, rfl, rfl⟩ := UnpackedFloat.finite.inj shape
        have zero : exponent.toNat = 0 := congrArg BitVec.toNat least
        have here : place + 1 = -1074 := by omega
        exact here ▸ .smallest pos (by omega)
    · rename_i normal
      obtain ⟨-, rfl, rfl⟩ := UnpackedFloat.finite.inj shape
      have log : (1#1 ++ mantissa).toNat.log2 = 52 := by
        rw [wholeSignificand mantissa, Nat.log2_eq_iff (by omega)]
        omega
      have low : exponent.toNat ≠ 0 := fun zero => normal (BitVec.eq_of_toNat_eq zero)
      have high : exponent.toNat ≠ 2047 := fun all => finite (BitVec.eq_of_toNat_eq all)
      exact ⟨pos, by omega, by omega⟩

theorem unpackNormal (s : Sign) {exponent : BitVec 11} (mantissa : BitVec 52) (least : exponent ≠ 0#11)
    (finite : exponent ≠ -1#11) :
    UnpackedFloat.unpack Format.binary64 (packComponents Format.binary64 s exponent mantissa) =
      .finite s (2 ^ 52 + mantissa.toNat) (exponent.toNat - 1075) (by omega) := by
  rw [UnpackedFloat.unpack]
  simp only [unpackExponent_packComponents, unpackMantissa_packComponents, unpackSign_packComponents,
    Sign.ofBitVec_toBitVec]
  rw [if_neg finite, if_neg least]
  exact finiteEq (wholeSignificand mantissa) rfl _

theorem unpackSubnormal (s : Sign) {mantissa : BitVec 52} (pos : 0 < mantissa.toNat) :
    UnpackedFloat.unpack Format.binary64 (packComponents Format.binary64 s 0#11 mantissa) =
      .finite s mantissa.toNat (-1074) pos := by
  rw [UnpackedFloat.unpack]
  simp only [unpackExponent_packComponents, unpackMantissa_packComponents, unpackSign_packComponents,
    Sign.ofBitVec_toBitVec]
  rw [if_neg (by decide), if_pos trivial, dif_neg fun zero => pos.ne' (congrArg BitVec.toNat zero)]
  rfl

theorem unpackPack {m : Nat} {e : Int} (canonical : Canonical m e) (s : Sign) :
    (Float.Model.pack (.finite s m e canonical.pos)).unpack = .finite s m e canonical.pos := by
  have pos := canonical.pos
  have place := canonical.place
  have top := canonical.top
  have biased : (e + Format.binary64.exponentBias + (52 : Nat)).toNat = (e + 1075).toNat := by
    change (e + 1023 + 52).toNat = _
    omega
  change UnpackedFloat.unpack Format.binary64 (UnpackedFloat.pack Format.binary64 _) = _
  simp only [UnpackedFloat.pack, biased]
  rw [if_neg (by omega)]
  by_cases normal : m.log2 = 52
  · obtain ⟨least, most⟩ := (Nat.log2_eq_iff pos.ne').mp normal
    have exponent : (BitVec.ofNat 11 (e + 1075).toNat).toNat = (e + 1075).toNat := Nat.mod_eq_of_lt (by omega)
    have mantissa : (BitVec.ofNat 52 m).toNat = m - 2 ^ 52 := by
      rw [BitVec.toNat_ofNat]
      omega
    rw [if_pos (show m.log2 + 1 = Format.binary64.mantissaBits by rw [normal]; rfl)]
    refine (unpackNormal s (BitVec.ofNat 52 m) ?_ ?_).trans (finiteEq (by omega) (by omega) _)
    · intro zero
      have := exponent.symm.trans (congrArg BitVec.toNat zero)
      change (e + 1075).toNat = 0 at this
      omega
    · intro all
      have := exponent.symm.trans (congrArg BitVec.toNat all)
      change (e + 1075).toNat = 2047 at this
      omega
  · have log : m.log2 < 52 := by omega
    have mantissa : (BitVec.ofNat 52 m).toNat = m := Nat.mod_eq_of_lt ((Nat.log2_lt pos.ne').mp log)
    rw [if_neg (by change m.log2 + 1 ≠ 53; omega)]
    exact (unpackSubnormal s (mantissa.symm ▸ pos)).trans (finiteEq mantissa (by omega) _)

theorem targetPlace (m : Nat) (e : Int) :
    Format.binary64.targetExponent (totalExponent m e) = max (m.log2 + e - 52) (-1074) := by
  simp only [Format.targetExponent, totalExponent, Format.mantissaBits, Format.minExponent]
  omega

theorem logShift {m : Nat} (pos : 0 < m) (k : Nat) : (m * 2 ^ k).log2 = m.log2 + k := by
  induction k with
  | zero => rw [pow_zero, mul_one, add_zero]
  | succ k ih =>
    rw [pow_succ', mul_left_comm, Nat.log2_two_mul (Nat.mul_pos pos (Nat.two_pow_pos k)).ne', ih, add_assoc]

theorem shiftExact (m k : Nat) : ExtendedMantissa.mk (m * 2 ^ k) false false >>> k = ⟨m, false, false⟩ := by
  induction k generalizing m with
  | zero =>
    rw [pow_zero, mul_one]
    rfl
  | succ k ih =>
    change ((ExtendedMantissa.mk (m * 2 ^ (k + 1)) false false) >>> k).shiftRightOne = _
    rw [pow_succ, mul_comm (2 ^ k), ← mul_assoc, ih]
    simp [ExtendedMantissa.shiftRightOne]

theorem shiftToPlace {m : Nat} {e : Int} (canonical : Canonical m e) (k : Nat) :
    shiftToTargetExponent Format.binary64 (m * 2 ^ k) (e - k) .exact = (⟨m, false, false⟩, e) := by
  have place := canonical.place
  have target : Format.binary64.targetExponent (totalExponent (m * 2 ^ k) (e - k)) = e := by
    rw [targetPlace, logShift canonical.pos]
    omega
  have amount : (e - (e - k)).toNat = k := by omega
  simp only [shiftToTargetExponent, shiftToExponent, target, amount, ExtendedMantissa.ofMantissaAndAccuracy,
    shiftExact, sub_add_cancel]

theorem roundExact {m : Nat} {e : Int} (canonical : Canonical m e) (s : Sign) (k : Nat) :
    roundWithAccuracy Format.binary64 s (m * 2 ^ k) (e - k) .exact = .finite s m e canonical.pos := by
  have again := shiftToPlace canonical 0
  have rounded : (ExtendedMantissa.mk m false false).roundedMantissa = m := rfl
  rw [pow_zero, mul_one, Nat.cast_zero, sub_zero] at again
  simp only [roundWithAccuracy, shiftToPlace canonical k, rounded, again, canonical.pos.ne', dite_false]

theorem roundLeast {m : Nat} {accuracy : Accuracy} (s : Sign) (small : m < 2 ^ 53)
    (rounded : accuracy.roundToNearestEven m < 2 ^ 53) :
    roundWithAccuracy Format.binary64 s m (-1074) accuracy =
      if h : accuracy.roundToNearestEven m = 0 then .zero s
      else .finite s (accuracy.roundToNearestEven m) (-1074) (Nat.pos_of_ne_zero h) := by
  have stays {n : Nat} (small : n < 2 ^ 53) (accuracy : Accuracy) :
      shiftToTargetExponent Format.binary64 n (-1074) accuracy = (.ofMantissaAndAccuracy n accuracy, -1074) := by
    have log : n.log2 < 53 := by
      rcases n.eq_zero_or_pos with rfl | pos
      · decide
      · exact (Nat.log2_lt pos.ne').mpr small
    have target : max ((n.log2 : Int) + -1074 - 52) (-1074) = -1074 := by omega
    simp only [shiftToTargetExponent, targetPlace, target]
    rfl
  have extended : (ExtendedMantissa.ofMantissaAndAccuracy m accuracy).roundedMantissa =
      accuracy.roundToNearestEven m := by
    rcases accuracy with _ | _ | _ | _ <;> rfl
  simp only [roundWithAccuracy, stays small, extended, stays rounded]
  rfl

theorem divExact {m : Nat} {e : Int} (j : Nat) (shifted : Canonical m (e - j)) (s : Sign) :
    UnpackedFloat.div Format.binary64 (.finite s m e shifted.pos) (.finite .positive (2 ^ 52) (j - 52) (by decide)) =
      .finite s m (e - j) shifted.pos := by
  have place := shifted.place
  have total : totalExponent m e - totalExponent (2 ^ 52) (j - 52) = totalExponent m (e - j - 1) := by
    simp only [totalExponent, Nat.log2_two_pow]
    omega
  obtain ⟨k, lower⟩ : ∃ k : Nat, max (m.log2 + (e - j - 1) - 52) (-1074) = e - j - k :=
    ⟨(e - j - max (m.log2 + (e - j - 1) - 52) (-1074)).toNat, by omega⟩
  have core : divCore Format.binary64 m e (2 ^ 52) (j - 52) = (m * 2 ^ k, e - j - k, .exact) := by
    have least : min (e - (j - 52)) (e - j - k) = e - j - k := by omega
    have amount : (e - (j - 52) - (e - j - k)).toNat = k + 52 := by omega
    simp only [divCore, total, targetPlace, lower, least, amount, Nat.shiftLeft_eq, pow_add, ← mul_assoc]
    rw [Nat.mul_div_cancel _ (by decide), Nat.mul_mod_left]
    rfl
  simp only [UnpackedFloat.div, core]
  rw [roundExact shifted]
  cases s <;> rfl

theorem halfEvenSmall {m : Nat} (small : m < 2 ^ 53) : roundHalfEven m 2 < 2 ^ 53 := by
  rw [roundHalfEven]
  split <;> omega

theorem divSubnormal {m : Nat} (pos : 0 < m) (small : m < 2 ^ 53) (s : Sign) :
    UnpackedFloat.div Format.binary64 (.finite s m (-1074) pos) (.finite .positive (2 ^ 52) (-51) (by decide)) =
      if h : roundHalfEven m 2 = 0 then .zero s
      else .finite s (roundHalfEven m 2) (-1074) (Nat.pos_of_ne_zero h) := by
  have log : m.log2 < 53 := (Nat.log2_lt pos.ne').mpr small
  have total : totalExponent m (-1074) - totalExponent (2 ^ 52) (-51) = totalExponent m (-1076) := by
    simp only [totalExponent, Nat.log2_two_pow]
    omega
  have target : max ((m.log2 : Int) + -1076 - 52) (-1074) = -1074 := by omega
  have core : divCore Format.binary64 m (-1074) (2 ^ 52) (-51) =
      (m / 2, -1074, accuracyOfFraction (m % 2 * 2 ^ 51) (2 ^ 52)) := by
    simp only [divCore, total, targetPlace, target, Nat.shiftLeft_eq]
    change (m * 2 ^ 51 / (2 * 2 ^ 51), _, accuracyOfFraction (m * 2 ^ 51 % (2 * 2 ^ 51)) _) = _
    rw [Nat.mul_div_mul_right _ _ (by decide), Nat.mul_mod_mul_right]
    rfl
  have rounded : (accuracyOfFraction (m % 2 * 2 ^ 51) (2 ^ 52)).roundToNearestEven (m / 2) = roundHalfEven m 2 := by
    rcases Nat.mod_two_eq_zero_or_one m with even | odd
    · rw [roundHalfEven, even]
      rfl
    · have tie : accuracyOfFraction (1 * 2 ^ 51) (2 ^ 52) = .inexact .eq := rfl
      rw [roundHalfEven, odd, tie]
      change m / 2 + m / 2 % 2 = _
      split <;> omega
  simp only [UnpackedFloat.div, core]
  rw [roundLeast _ (by omega) (rounded ▸ halfEvenSmall small)]
  simp only [rounded]
  cases s <;> rfl

theorem unpackOne : (Float.ofInt 1).toModel.unpack = .finite .positive (2 ^ 52) (-52) (by decide) := rfl

theorem unpackTwo : (Float.ofInt 2).toModel.unpack = .finite .positive (2 ^ 52) (-51) (by decide) := rfl

theorem unpackDiv (x y : Float) : (x / y).toModel.unpack =
    (Float.Model.pack (UnpackedFloat.div Format.binary64 x.toModel.unpack y.toModel.unpack)).unpack := rfl

theorem divOne (x : Float) : (x / Float.ofInt 1).toModel.unpack = x.toModel.unpack := by
  rw [unpackDiv, unpackOne]
  cases shape : x.toModel.unpack with
  | infinity s => cases s <;> rfl
  | notANumber => rfl
  | zero s => cases s <;> rfl
  | finite s m e pos =>
    have canonical := canonicalUnpack shape
    have exact := divExact 0 (show Canonical m (e - (0 : Nat)) by rwa [Nat.cast_zero, sub_zero]) s
    simp only [Nat.cast_zero, sub_zero, zero_sub] at exact
    rw [exact, unpackPack canonical]

theorem ltUnpack (x y : Float) : Float.lt x y = x.toModel.unpack.lt y.toModel.unpack := Bool.decide_coe _

theorem beqSelf (x : Float) : (x == x) = !x.isNaN := by
  change x.toModel.unpack.beq x.toModel.unpack = !x.toModel.unpack.isNaN
  cases x.toModel.unpack with
  | infinity s => cases s <;> rfl
  | notANumber => rfl
  | zero s => rfl
  | finite s m e pos =>
    have same : (UnpackedFloat.finite s m e pos).compare (.finite s m e pos) = some .eq := by
      cases s <;> simp [UnpackedFloat.compare]
    rw [UnpackedFloat.beq, same]
    rfl

theorem beqNumber {x : Float} (number : x.isNaN = false) : (x == x) = true := by
  rw [beqSelf, number, Bool.not_false]

theorem numberOfValue {x : Float} {r : Rat} (value : value? x = some r) : x.isNaN = false := by
  change x.toModel.unpack.isNaN = false
  cases shape : x.toModel.unpack with
  | notANumber => simp only [value?, shape, reduceCtorEq] at value
  | _ => rfl

theorem sameUnpack {x y : Float} (same : x.toModel.unpack = y.toModel.unpack) :
    x.isNaN = y.isNaN ∧ value? x = value? y :=
  ⟨congrArg UnpackedFloat.isNaN same, by rw [value?, value?, same]⟩

theorem valueFinite {x : Float} {s : Sign} {m : Nat} {e : Int} {pos : 0 < m}
    (shape : x.toModel.unpack = .finite s m e pos) : value? x = some (s.apply m * (2 : Rat) ^ e) := by
  simp only [value?, shape, Option.some.injEq]
  split
  · obtain ⟨k, rfl⟩ : ∃ k : Nat, e = -k := ⟨(-e).toNat, by omega⟩
    rw [Rat.mkRat_eq_div, neg_neg, Int.toNat_natCast, zpow_neg, zpow_natCast, div_eq_mul_inv]
    norm_cast
  · obtain ⟨k, rfl⟩ : ∃ k : Nat, e = k := ⟨e.toNat, by omega⟩
    rw [Int.toNat_natCast, zpow_natCast]
    norm_cast

def least : Rat := (2 : Rat) ^ (-1074 : Int)

theorem leastPos : 0 < least := zpow_pos (by decide) _

theorem fewLeast {n : Nat} (small : n < 2 ^ 53) : n * least < 1 := by
  have place : (2 : Rat) ^ 53 * least ≤ 1 := by
    rw [least, ← zpow_natCast, ← zpow_add₀ (by decide)]
    exact zpow_le_one_of_nonpos₀ (by decide) (by decide)
  calc
    n * least < 2 ^ 53 * least := mul_lt_mul_of_pos_right (by exact_mod_cast small) leastPos
    _ ≤ 1 := place

theorem floorEq {r : Rat} {n : Int} : r.floor = n ↔ n ≤ r ∧ r < n + 1 := by
  constructor
  · rintro rfl
    exact ⟨r.floor_le, by exact_mod_cast r.lt_floor_add_one⟩
  · rintro ⟨lower, upper⟩
    have below := Rat.le_floor_iff.mpr lower
    have above := Rat.floor_lt_iff.mpr (show r < ((n + 1 : Int) : Rat) by exact_mod_cast upper)
    omega

theorem floorZero {c : Rat} (nonneg : 0 ≤ c) (small : c < 1) : c.floor = 0 :=
  floorEq.mpr ⟨by exact_mod_cast nonneg, by rwa [Int.cast_zero, zero_add]⟩

theorem floorBelow {c : Rat} (pos : 0 < c) (small : c ≤ 1) : (-c).floor = -1 :=
  floorEq.mpr ⟨by push_cast; linarith, by push_cast; linarith⟩

theorem halfLeast {m : Nat} (pos : 0 < m) (small : m < 2 ^ 53) (s : Sign) :
    (s.apply (roundHalfEven m 2) * least).floor =
      if s.apply m * least = -least then 0 else (s.apply m * least / 2).floor := by
  have unit := leastPos
  have tiny := fewLeast small
  have tinyHalf := fewLeast (halfEvenSmall small)
  have above : 0 < m * least := mul_pos (Nat.cast_pos.mpr pos) unit
  cases s with
  | positive =>
    simp only [Sign.apply, Int.cast_natCast]
    rw [if_neg (by linarith), floorZero (by positivity) tinyHalf, floorZero (by positivity) (by linarith)]
  | negative =>
    simp only [Sign.apply, Int.cast_neg, Int.cast_natCast, neg_mul, neg_div, neg_inj]
    by_cases single : m = 1
    · subst single
      rw [if_pos (by rw [Nat.cast_one, one_mul])]
      change (-((0 : Nat) * least)).floor = 0
      rw [Nat.cast_zero, zero_mul]
      rfl
    · have more : 0 < roundHalfEven m 2 := by
        rw [roundHalfEven]
        split <;> omega
      have other : m * least ≠ least := fun same => single (by
        exact_mod_cast mul_right_cancel₀ unit.ne' (same.trans (one_mul least).symm))
      rw [if_neg other, floorBelow (by positivity) tinyHalf.le, floorBelow (by positivity) (by linarith)]

theorem halfValue {x : Float} {r : Rat} (value : value? x = some r) :
    ∃ q, value? (x / Float.ofInt 2) = some q ∧ q.floor = if r = -least then 0 else (r / 2).floor := by
  have unpacked := unpackDiv x (Float.ofInt 2)
  rw [unpackTwo] at unpacked
  cases shape : x.toModel.unpack with
  | infinity s => simp only [value?, shape, reduceCtorEq] at value
  | notANumber => simp only [value?, shape, reduceCtorEq] at value
  | zero s =>
    obtain rfl : r = 0 := by
      simp only [value?, shape, Option.some.injEq] at value
      exact value.symm
    have half : (x / Float.ofInt 2).toModel.unpack = .zero s := by
      rw [unpacked, shape]
      cases s <;> rfl
    refine ⟨0, by simp only [value?, half], ?_⟩
    rw [zero_div]
    split <;> rfl
  | finite s m e pos =>
    obtain rfl : s.apply m * (2 : Rat) ^ e = r := Option.some.inj ((valueFinite shape).symm.trans value)
    have canonical := canonicalUnpack shape
    by_cases smallest : e = -1074
    · subst smallest
      have small := canonical.small
      refine ⟨s.apply (roundHalfEven m 2) * least, ?_, halfLeast pos small s⟩
      rw [shape, divSubnormal pos small] at unpacked
      split at unpacked
      · rename_i zero
        have none : (Float.Model.pack (.zero s)).unpack = .zero s := by cases s <;> rfl
        rw [none] at unpacked
        cases s <;> simp [value?, unpacked, zero, Sign.apply]
      · rename_i some
        have rounded : Canonical (roundHalfEven m 2) (-1074) :=
          .smallest (Nat.pos_of_ne_zero some) (halfEvenSmall small)
        exact valueFinite (unpacked.trans (unpackPack rounded s))
    · have place := canonical.place
      have top := canonical.top
      have shifted : Canonical m (e - 1) := ⟨pos, by omega, by omega⟩
      have half : (x / Float.ofInt 2).toModel.unpack = .finite s m (e - 1) pos := by
        rw [unpacked, shape]
        exact (congrArg (fun u => (Float.Model.pack u).unpack) (divExact 1 shifted s)).trans (unpackPack shifted s)
      refine ⟨_, valueFinite half, ?_⟩
      have other : s.apply m * (2 : Rat) ^ e ≠ -least := by
        have unit := leastPos
        have larger : least < (2 : Rat) ^ e := zpow_lt_zpow_right₀ (by decide) (by omega)
        have whole : (2 : Rat) ^ e ≤ m * (2 : Rat) ^ e := le_mul_of_one_le_left (by linarith) (by exact_mod_cast pos)
        cases s <;> simp only [Sign.apply, Int.cast_neg, Int.cast_natCast, neg_mul] <;> linarith
      rw [if_neg other, zpow_sub_one₀ (by decide), mul_div_assoc, div_eq_mul_inv]

theorem halfValueless {x : Float} (valueless : value? x = none) :
    (x / Float.ofInt 2).toModel.unpack = x.toModel.unpack := by
  rw [unpackDiv, unpackTwo]
  cases shape : x.toModel.unpack with
  | infinity s => cases s <;> rfl
  | notANumber => rfl
  | zero s => simp only [value?, shape, reduceCtorEq] at valueless
  | finite s m e pos => simp only [value?, shape, reduceCtorEq] at valueless

end TurtleBoard.Number
