import TurtleBoard.Proofs.Floats
import TurtleBoard.Proofs.Grammar

/-! The decimal text of a float from zero on is a plain decimal that reads back as the same float. A ratio that is a
float is its own nearest float; the search for few digits keeps what reads back, and ends at a grid that every float is
on. -/
namespace TurtleBoard.Number
open Float.Model Float.Model.UnpackedFloat

theorem floatEq {x y : Float} (same : x.toModel.unpack = y.toModel.unpack) : x = y := by
  rw [← Float.ofBits_toBits x, ← Float.ofBits_toBits y]
  exact congrArg (fun shape => Float.ofModel (Float.Model.pack shape)) same

theorem ratioLess (n : Nat) {d : Nat} (den : 0 < d) (e : Int) :
    (if 0 ≤ e then n < d * twoPow (52 + e.toNat) else n * twoPow (-e).toNat < d * twoPow 52) ↔
      (n : Rat) / d < (2 : Rat) ^ (e + 52) := by
  have denominator : (0 : Rat) < d := by exact_mod_cast den
  rw [div_lt_iff₀ denominator]
  split
  · obtain ⟨k, rfl⟩ : ∃ k : Nat, e = k := ⟨e.toNat, by omega⟩
    have power : (2 : Rat) ^ ((k : Int) + 52) = (twoPow (52 + k) : Nat) := by
      rw [add_comm]
      exact_mod_cast rfl
    rw [power, Int.toNat_natCast, mul_comm d]
    norm_cast
  · obtain ⟨k, rfl⟩ : ∃ k : Nat, e = -k := ⟨(-e).toNat, by omega⟩
    have power : (2 : Rat) ^ (-(k : Int) + 52) * (twoPow k : Nat) = (twoPow 52 : Nat) := by
      have unit : ((twoPow k : Nat) : Rat) = (2 : Rat) ^ (k : Int) := by exact_mod_cast rfl
      rw [unit, ← zpow_add₀ two_ne_zero, neg_add_cancel_comm]
      exact_mod_cast rfl
    have scale : (0 : Rat) < (twoPow k : Nat) := by exact_mod_cast Nat.two_pow_pos k
    rw [neg_neg, Int.toNat_natCast, ← mul_lt_mul_iff_left₀ scale, mul_right_comm, power, mul_comm d]
    norm_cast

theorem lastPlaceLog {n d : Nat} (pos : 0 < n) (den : 0 < d) :
    lastPlace n d = max (-1074) (Int.log 2 ((n : Rat) / d) - 52) := by
  have ratio : (0 : Rat) < n / d := by positivity
  have denominator : (0 : Rat) < d := by exact_mod_cast den
  have lower : (n.log2 : Int) - (d.log2 + 1) ≤ Int.log 2 ((n : Rat) / d) := by
    apply (Int.zpow_le_iff_le_log (by decide) ratio).mp
    have above : (2 : Rat) ^ n.log2 ≤ n := by exact_mod_cast Nat.log2_self_le pos.ne'
    have below : (d : Rat) ≤ 2 ^ (d.log2 + 1) := by exact_mod_cast Nat.lt_log2_self.le
    rw [Nat.cast_ofNat, zpow_sub₀ two_ne_zero]
    exact div_le_div₀ (by positivity) (by exact_mod_cast above) denominator (by exact_mod_cast below)
  have upper : Int.log 2 ((n : Rat) / d) < n.log2 + 1 - d.log2 := by
    apply (Int.lt_zpow_iff_log_lt (by decide) ratio).mp
    have above : (n : Rat) < 2 ^ (n.log2 + 1) := by exact_mod_cast Nat.lt_log2_self
    have below : (2 : Rat) ^ d.log2 ≤ d := by exact_mod_cast Nat.log2_self_le den.ne'
    rw [Nat.cast_ofNat, zpow_sub₀ two_ne_zero]
    exact div_lt_div₀ (by exact_mod_cast above) (by exact_mod_cast below) (by positivity) (by positivity)
  have wide := ratioLess n den ((n.log2 : Int) - d.log2 - 52)
  have log := Int.lt_zpow_iff_log_lt (b := 2) (by decide) (x := (n.log2 : Int) - d.log2 - 52 + 52) ratio
  rw [Nat.cast_ofNat, ← wide] at log
  simp only [lastPlace, log]
  split <;> omega

theorem roundExactRatio (m : Nat) {d : Nat} (den : 0 < d) : roundHalfEven (m * d) d = m := by
  rw [roundHalfEven, Nat.mul_mod_left, Nat.mul_div_cancel m den, if_pos (.inl (by omega))]

theorem packedValue (exponent : BitVec 11) (mantissa : BitVec 52) :
    (packComponents Format.binary64 .positive exponent mantissa).toNat = exponent.toNat * 2 ^ 52 + mantissa.toNat := by
  change (0#1 ++ exponent ++ mantissa).toNat = _
  rw [BitVec.toNat_append, BitVec.toNat_append, ← Nat.shiftLeft_add_eq_or_of_lt mantissa.isLt,
    ← Nat.shiftLeft_add_eq_or_of_lt exponent.isLt, Nat.shiftLeft_eq, Nat.shiftLeft_eq]
  simp

theorem bitsPacked {bits : Nat} (low : bits < 2 ^ 63) :
    BitVec.ofNat 64 bits =
      packComponents Format.binary64 .positive (BitVec.ofNat 11 (bits / 2 ^ 52)) (BitVec.ofNat 52 bits) := by
  apply BitVec.eq_of_toNat_eq
  rw [packedValue]
  simp only [BitVec.toNat_ofNat]
  omega

theorem unpackNormalBits {bits : Nat} (least : 1 ≤ bits / 2 ^ 52) (finite : bits / 2 ^ 52 < 2047) :
    UnpackedFloat.unpack Format.binary64 (BitVec.ofNat 64 bits) =
      .finite .positive (2 ^ 52 + bits % 2 ^ 52) ((bits / 2 ^ 52 : Nat) - 1075) (by omega) := by
  have low : bits < 2 ^ 63 := by omega
  generalize top : bits / 2 ^ 52 = exponent at least finite
  have stored : (BitVec.ofNat 11 exponent).toNat = exponent := by
    rw [BitVec.toNat_ofNat, Nat.mod_eq_of_lt (by omega)]
  have mantissa : (BitVec.ofNat 52 bits).toNat = bits % 2 ^ 52 := BitVec.toNat_ofNat bits 52
  rw [bitsPacked low, top]
  refine (unpackNormal .positive _ ?_ ?_).trans (finiteEq ?_ ?_ _)
  · intro zero
    have := stored.symm.trans (congrArg BitVec.toNat zero)
    change exponent = 0 at this
    omega
  · intro all
    have := stored.symm.trans (congrArg BitVec.toNat all)
    change exponent = 2047 at this
    omega
  · rw [mantissa]
  · rw [stored]

theorem unpackSubnormalBits {bits : Nat} (pos : 0 < bits) (small : bits < 2 ^ 52) :
    UnpackedFloat.unpack Format.binary64 (BitVec.ofNat 64 bits) = .finite .positive bits (-1074) pos := by
  have low : bits < 2 ^ 63 := by omega
  have mantissa : (BitVec.ofNat 52 bits).toNat = bits := by
    rw [BitVec.toNat_ofNat, Nat.mod_eq_of_lt small]
  rw [bitsPacked low, Nat.div_eq_of_lt small]
  exact (unpackSubnormal .positive (mantissa.symm ▸ pos)).trans (finiteEq mantissa rfl _)

theorem unpackInfinity : UnpackedFloat.unpack Format.binary64 (BitVec.ofNat 64 infinityBits) = .infinity .positive := by
  have exponent : BitVec.ofNat 11 (infinityBits / 2 ^ 52) = -1#11 := by decide
  have mantissa : BitVec.ofNat 52 infinityBits = 0#52 := by decide
  rw [bitsPacked (by decide), exponent, mantissa, UnpackedFloat.unpack]
  simp only [unpackExponent_packComponents, unpackMantissa_packComponents, unpackSign_packComponents,
    Sign.ofBitVec_toBitVec]
  rfl

theorem unpackBits {m : Nat} {e : Int} (canonical : Canonical m e) :
    UnpackedFloat.unpack Format.binary64 (BitVec.ofNat 64 ((e + 1074).toNat * 2 ^ 52 + m)) =
      .finite .positive m e canonical.pos := by
  have pos := canonical.pos
  have place := canonical.place
  have top := canonical.top
  obtain ⟨packed, bits⟩ : ∃ packed, (e + 1074).toNat * 2 ^ 52 + m = packed := ⟨_, rfl⟩
  rw [bits]
  by_cases normal : m.log2 = 52
  · obtain ⟨least, most⟩ := (Nat.log2_eq_iff pos.ne').mp normal
    have exponent : ((packed / 2 ^ 52 : Nat) : Int) - 1075 = e := by omega
    have significand : 2 ^ 52 + packed % 2 ^ 52 = m := by omega
    exact (unpackNormalBits (by omega) (by omega)).trans (finiteEq significand exponent _)
  · have small := (Nat.log2_lt pos.ne').mp (show m.log2 < 52 by omega)
    have exponent : -1074 = e := by omega
    have significand : packed = m := by omega
    exact (unpackSubnormalBits (by omega) (by omega)).trans (finiteEq significand exponent _)

theorem logValue {m : Nat} (pos : 0 < m) (e : Int) : Int.log 2 ((m : Rat) * (2 : Rat) ^ e) = m.log2 + e := by
  have unit : (0 : Rat) < (2 : Rat) ^ e := zpow_pos (by decide) e
  have above : (0 : Rat) < m * (2 : Rat) ^ e := mul_pos (by exact_mod_cast pos) unit
  apply le_antisymm
  · apply Int.lt_add_one_iff.mp
    apply (Int.lt_zpow_iff_log_lt (by decide) above).mp
    rw [Nat.cast_ofNat, add_right_comm, zpow_add₀ two_ne_zero]
    exact mul_lt_mul_of_pos_right (by exact_mod_cast Nat.lt_log2_self) unit
  · apply (Int.zpow_le_iff_le_log (by decide) above).mp
    rw [Nat.cast_ofNat, zpow_add₀ two_ne_zero]
    exact mul_le_mul_of_nonneg_right (by exact_mod_cast Nat.log2_self_le pos.ne') unit.le

theorem nearestExact {n d m : Nat} {e : Int} (den : 0 < d) (canonical : Canonical m e)
    (value : (n : Rat) / d = m * (2 : Rat) ^ e) :
    (nearest n d).toModel.unpack = .finite .positive m e canonical.pos := by
  have pos := canonical.pos
  have place := canonical.place
  have denominator : (d : Rat) ≠ 0 := by exact_mod_cast den.ne'
  have whole : (n : Rat) = m * (2 : Rat) ^ e * d := (div_eq_iff denominator).mp value
  have some : n ≠ 0 := by
    rintro rfl
    have unit : (2 : Rat) ^ e ≠ 0 := zpow_ne_zero e two_ne_zero
    rw [Nat.cast_zero, zero_eq_mul, mul_eq_zero] at whole
    exact whole.elim (·.elim (fun zero => pos.ne' (by exact_mod_cast zero)) unit) denominator
  have last : (if n = 0 then -1074 else lastPlace n d) = e := by
    rw [if_neg some, lastPlaceLog (Nat.pos_of_ne_zero some) den, value, logValue pos]
    omega
  have significand : (if 0 ≤ e then roundHalfEven n (d * twoPow e.toNat)
      else roundHalfEven (n * twoPow (-e).toNat) d) = m := by
    split
    · obtain ⟨k, rfl⟩ : ∃ k : Nat, e = k := ⟨e.toNat, by omega⟩
      have exact : n = m * (d * twoPow k) := by
        rw [zpow_natCast] at whole
        have unit : twoPow k = 2 ^ k := rfl
        rw [unit, mul_comm d, ← mul_assoc]
        exact_mod_cast whole
      rw [Int.toNat_natCast, exact]
      exact roundExactRatio m (Nat.mul_pos den (Nat.two_pow_pos k))
    · obtain ⟨k, rfl⟩ : ∃ k : Nat, e = -k := ⟨(-e).toNat, by omega⟩
      have exact : n * twoPow k = m * d := by
        have unit : ((twoPow k : Nat) : Rat) = (2 : Rat) ^ k := by exact_mod_cast rfl
        have scaled : (n : Rat) * (twoPow k : Nat) = m * d := by
          rw [whole, unit, zpow_neg, zpow_natCast]
          field_simp
        exact_mod_cast scaled
      rw [neg_neg, Int.toNat_natCast, exact]
      exact roundExactRatio m den
  have low : (e + 1074).toNat * twoPow 52 + m < infinityBits := by
    have top := canonical.top
    have small := canonical.small
    have unit : twoPow 52 = 2 ^ 52 := rfl
    rw [infinityBits, unit]
    omega
  have bits : nearest n d = Float.ofBits (UInt64.ofNat ((e + 1074).toNat * twoPow 52 + m)) := by
    rw [nearest]
    simp only [last, significand, min_eq_right low.le]
  rw [bits]
  exact (congrArg (fun shape => (Float.Model.pack shape).unpack) (unpackBits canonical)).trans
    (unpackPack canonical .positive)

theorem nearestZero (d : Nat) : (nearest 0 d).toModel.unpack = .zero .positive := by
  have rounded (d : Nat) : roundHalfEven 0 d = 0 := by
    rw [roundHalfEven, Nat.zero_mod, Nat.zero_div, if_pos (by omega)]
  have bits : nearest 0 d = Float.ofBits (UInt64.ofNat 0) := by
    rw [nearest]
    simp only [if_true, Nat.zero_mul, rounded, ite_self, neg_add_cancel, Int.toNat_zero, Nat.add_zero, Nat.min_zero]
  rw [bits]
  rfl

inductive Magnitude (x : Float) : Prop where
  | zero (shape : x.toModel.unpack = .zero .positive)
  | finite {m : Nat} {e : Int} (canonical : Canonical m e)
      (shape : x.toModel.unpack = .finite .positive m e canonical.pos)

theorem packedBits (bits : Nat) :
    (Float.ofBits (UInt64.ofNat bits)).toModel.unpack =
      (Float.Model.pack (UnpackedFloat.unpack Format.binary64 (BitVec.ofNat 64 bits))).unpack := rfl

theorem infinityValue : value? (Float.ofBits (UInt64.ofNat infinityBits)) = none := by
  have packed : (Float.Model.pack (.infinity .positive)).unpack = .infinity .positive := rfl
  rw [value?, packedBits, unpackInfinity, packed]

theorem bitsMagnitude {bits : Nat} (below : bits < infinityBits) : Magnitude (Float.ofBits (UInt64.ofNat bits)) := by
  have limit : infinityBits = 2047 * 2 ^ 52 := rfl
  have shape := packedBits bits
  by_cases normal : 1 ≤ bits / 2 ^ 52
  · have log : (2 ^ 52 + bits % 2 ^ 52).log2 = 52 := by
      rw [Nat.log2_eq_iff (by omega)]
      omega
    have canonical : Canonical (2 ^ 52 + bits % 2 ^ 52) ((bits / 2 ^ 52 : Nat) - 1075) :=
      ⟨by omega, by omega, by omega⟩
    rw [unpackNormalBits normal (by omega)] at shape
    exact .finite canonical (shape.trans (unpackPack canonical .positive))
  · by_cases none : bits = 0
    · subst none
      exact .zero shape
    · have canonical : Canonical bits (-1074) := .smallest (by omega) (by omega)
      rw [unpackSubnormalBits (by omega) (by omega)] at shape
      exact .finite canonical (shape.trans (unpackPack canonical .positive))

theorem nearestMagnitude {n d : Nat} (finite : (value? (nearest n d)).isSome = true) : Magnitude (nearest n d) := by
  obtain ⟨bits, within, same⟩ : ∃ bits, bits ≤ infinityBits ∧ nearest n d = Float.ofBits (UInt64.ofNat bits) :=
    ⟨_, min_le_left _ _, rfl⟩
  rw [same] at finite ⊢
  apply bitsMagnitude
  refine lt_of_le_of_ne within ?_
  rintro rfl
  rw [infinityValue] at finite
  contradiction

theorem magnitudeSign {x : Float} (magnitude : Magnitude x) : (x.toBits >>> 63 == 1) = false := by
  have low : x.toBits.toNat < 2 ^ 63 := by
    rw [← Float.ofBits_toBits x]
    change (UnpackedFloat.pack Format.binary64 x.toModel.unpack).toNat < 2 ^ 63
    cases magnitude with
    | zero shape =>
      rw [shape]
      decide
    | @finite m e canonical shape =>
      have place := canonical.place
      have top := canonical.top
      have biased : (e + Format.binary64.exponentBias + (52 : Nat)).toNat = (e + 1075).toNat := by
        change (e + 1023 + 52).toNat = _
        omega
      have packed (exponent : BitVec 11) (mantissa : BitVec 52) :
          (packComponents Format.binary64 .positive exponent mantissa).toNat < 2 ^ 63 := by
        rw [packedValue]
        omega
      rw [shape]
      simp only [UnpackedFloat.pack, biased]
      rw [if_neg (by omega)]
      split
      · exact packed _ _
      · exact packed _ _
  have shifted : x.toBits >>> 63 = 0 := by
    apply UInt64.toNat_inj.mp
    rw [UInt64.toNat_shiftRight]
    change x.toBits.toNat >>> 63 = 0
    rw [Nat.shiftRight_eq_div_pow, Nat.div_eq_of_lt low]
  rw [shifted]
  rfl

theorem magnitudeAbs {x : Float} (magnitude : Magnitude x) : x.abs = x := by
  apply floatEq
  change (Float.Model.pack x.toModel.unpack.abs).unpack = _
  cases magnitude with
  | zero shape =>
    rw [shape]
    rfl
  | finite canonical shape =>
    rw [shape]
    exact unpackPack canonical .positive

theorem digitsRead (n : Nat) : digitsValue (Nat.toDigits 10 n) = n := Nat.ofDigitChars_ten_toDigits

theorem digitsOf (n : Nat) : Digits IsDigit (Nat.toDigits 10 n) where
  filled := Nat.toDigits_ne_nil
  all _ mem := Nat.isDigit_of_mem_toDigits (by decide) (by decide) mem

theorem paddingList (s : String) (c : Char) (n : Nat) : (s.pushn c n).toList = s.toList ++ List.replicate n c := by
  have step (k : Nat) : s.pushn c (k + 1) = (s.pushn c k).push c := rfl
  induction n with
  | zero => exact (List.append_nil _).symm
  | succ n ih => rw [step, String.toList_push, ih, List.append_assoc, List.replicate_succ']

def placesOf (c p : Nat) : List Char :=
  List.replicate (p - (Nat.toDigits 10 (c % tenPow p)).length) '0' ++ Nat.toDigits 10 (c % tenPow p)

theorem placesLength (c : Nat) {p : Nat} (pos : 0 < p) : (placesOf c p).length = p := by
  have short : (Nat.toDigits 10 (c % tenPow p)).length ≤ p :=
    (Nat.length_toDigits_le_iff (by decide) pos).mpr (Nat.mod_lt c (Nat.pow_pos (by decide)))
  rw [placesOf, List.length_append, List.length_replicate, Nat.sub_add_cancel short]

theorem placesDigits (c : Nat) {p : Nat} (pos : 0 < p) : Digits IsDigit (placesOf c p) where
  filled := List.length_pos_iff.mp ((placesLength c pos).symm ▸ pos)
  all := by
    intro digit mem
    rcases List.mem_append.mp mem with padding | digits
    · rw [List.eq_of_mem_replicate padding]
      rfl
    · exact (digitsOf _).all digit digits

theorem placesRead (c : Nat) {p : Nat} (pos : 0 < p) :
    digitsValue (Nat.toDigits 10 (c / tenPow p) ++ placesOf c p) = c := by
  have whole : Nat.ofDigitChars 10 (placesOf c p) 0 = c % tenPow p := by
    rw [placesOf, Nat.ofDigitChars_append, Nat.ofDigitChars_replicate_zero, mul_zero, Nat.ofDigitChars_ten_toDigits]
  change Nat.ofDigitChars 10 _ 0 = c
  rw [Nat.ofDigitChars_append, Nat.ofDigitChars_ten_toDigits, Nat.ofDigitChars_eq_ofDigitChars_zero, whole,
    placesLength c pos]
  exact Nat.div_add_mod c (tenPow p)

theorem decimalList (c : Nat) {places : Int} (pos : 0 < places) :
    (decimalText c places).toList =
      Nat.toDigits 10 (c / tenPow places.toNat) ++ '.' :: placesOf c places.toNat := by
  rw [decimalText, if_neg (by omega)]
  simp only [String.toList_append, paddingList, Nat.toString_eq_ofList_toDigits, String.toList_ofList,
    String.length_ofList, placesOf]
  simp

theorem readDecimal (c : Nat) (places : Int) :
    Numeral IsDigit (decimalText c places).toList (ofDecimal c places) := by
  by_cases pos : 0 < places
  · have digits := placesDigits c (p := places.toNat) (by omega)
    have numeral := Numeral.point (digitsOf (c / tenPow places.toNat)) digits
    rw [placesRead c (by omega), placesLength c (by omega), Int.toNat_of_nonneg pos.le] at numeral
    rwa [decimalList c pos]
  · have numeral := Numeral.whole (digitsOf (c * tenPow (-places).toNat))
    have same : ofDecimal (c * tenPow (-places).toNat) 0 = ofDecimal c places := by
      have unit : tenPow 0 = 1 := rfl
      rw [ofDecimal, ofDecimal, if_pos le_rfl, Int.toNat_zero, unit]
      split
      · obtain rfl : places = 0 := by omega
        rw [neg_zero, Int.toNat_zero, unit, mul_one]
      · rfl
    rw [digitsRead, same] at numeral
    rwa [decimalText, if_pos (by omega), Nat.toString_eq_ofList_toDigits, String.toList_ofList]

theorem neighbourReads {x : Float} {n d c : Nat} {places : Int} (found : neighbour? x n d places = some c) :
    ofDecimal c places = x := by
  unfold neighbour? at found
  extract_lets n' d' low reads at found
  have exact {c : Nat} (same : reads c = true) : ofDecimal c places = x := by
    rw [← Float.ofBits_toBits (ofDecimal c places), beq_iff_eq.mp same, Float.ofBits_toBits]
  split at found
  · rename_i lower upper
    obtain rfl := Option.some.inj found
    split
    · exact exact lower
    · exact exact upper
  · rename_i lower _
    obtain rfl := Option.some.inj found
    exact exact lower
  · rename_i _ upper
    obtain rfl := Option.some.inj found
    exact exact upper
  · contradiction

theorem firstGridReads {x : Float} {n d last : Nat} (onLast : ofDecimal (n * tenPow last / d) last = x) (grids : Nat)
    (places : Int) (upTo : places + grids = last) :
    ofDecimal (firstGrid x n d grids places).1 (firstGrid x n d grids places).2 = x := by
  induction grids generalizing places with
  | zero =>
    obtain rfl : places = last := by omega
    exact onLast
  | succ grids ih =>
    rw [firstGrid]
    split
    · rename_i found
      exact neighbourReads found
    · exact ih (places + 1) (by omega)

/- A float has no more places than the binary digits behind its point. -/
theorem gridExact (last : Nat) {x : Float} {n d m : Nat} {e : Int} (den : 0 < d) (canonical : Canonical m e)
    (shape : x.toModel.unpack = .finite .positive m e canonical.pos) (value : (n : Rat) / d = m * (2 : Rat) ^ e)
    (fine : -last ≤ e) : ofDecimal (n * tenPow last / d) last = x := by
  have denominator : (d : Rat) ≠ 0 := by exact_mod_cast den.ne'
  have tens : ((tenPow last : Nat) : Rat) = (10 : Rat) ^ last := by exact_mod_cast rfl
  obtain ⟨k, place⟩ : ∃ k : Nat, e = k - last := ⟨(e + last).toNat, by omega⟩
  have scaled : (2 : Rat) ^ e * 10 ^ last = 2 ^ k * 5 ^ last := by
    rw [place, zpow_sub₀ two_ne_zero, zpow_natCast, zpow_natCast, show (10 : Rat) = 2 * 5 by norm_num, mul_pow]
    field_simp
  have whole : n * tenPow last = m * 2 ^ k * 5 ^ last * d := by
    have product : (n : Rat) * (tenPow last : Nat) = (m * 2 ^ k * 5 ^ last) * d := by
      rw [(div_eq_iff denominator).mp value, tens, mul_right_comm, mul_assoc (m : Rat), scaled]
      ring
    exact_mod_cast product
  have exact : ((n * tenPow last / d : Nat) : Rat) / (tenPow last : Nat) = m * (2 : Rat) ^ e := by
    rw [whole, Nat.mul_div_cancel _ den, tens, div_eq_iff (by positivity), mul_assoc (m : Rat), scaled]
    push_cast
    ring
  apply floatEq
  rw [ofDecimal, if_pos (Int.natCast_nonneg last), Int.toNat_natCast]
  exact (nearestExact (Nat.pow_pos (by decide)) canonical exact).trans shape.symm

theorem shortestReads {x : Float} {n d m : Nat} {e : Int} (den : 0 < d) (canonical : Canonical m e)
    (shape : x.toModel.unpack = .finite .positive m e canonical.pos) (value : (n : Rat) / d = m * (2 : Rat) ^ e) :
    ofDecimal (shortest x n d).1 (shortest x n d).2 = x := by
  have place := canonical.place
  obtain ⟨last, many⟩ : ∃ last : Nat, last = 1074 := ⟨_, rfl⟩
  exact firstGridReads (gridExact last den canonical shape value (by omega)) 1383 (-309) (by omega)

/- The search is named here, and must not run when the pair that it finds is taken apart. -/
theorem textFound {x : Float} {r : Rat} (value : value? x = some r) (sign : (x.toBits >>> 63 == 1) = false)
    (filled : r.num ≠ 0) {decimal : Nat × Int} (found : shortest x.abs r.num.natAbs r.den = decimal) :
    text x = decimalText decimal.1 decimal.2 := by
  obtain ⟨c, places⟩ := decimal
  unfold text
  split
  · rename_i none
    rw [value] at none
    contradiction
  · rename_i r' same
    obtain rfl : r = r' := Option.some.inj (value.symm.trans same)
    rw [found]
    simp only [sign, if_neg filled, Bool.false_eq_true, if_false]

theorem readText {x : Float} (magnitude : Magnitude x) : Numeral IsDigit (text x).toList x := by
  have sign := magnitudeSign magnitude
  have abs := magnitudeAbs magnitude
  cases magnitude with
  | zero shape =>
    have value : value? x = some 0 := by rw [value?, shape]
    have zero : ofDecimal (digitsValue ['0']) 0 = x := by
      have digit : digitsValue ['0'] = 0 := rfl
      have unit : tenPow (0 : Int).toNat = 1 := rfl
      rw [ofDecimal, if_pos le_rfl, digit, unit]
      exact floatEq ((nearestZero 1).trans shape.symm)
    have numeral := Numeral.whole ((allDigitsIff ['0']).mp rfl)
    rw [zero] at numeral
    have digit : "0".toList = ['0'] := rfl
    simpa only [text, value, sign, Rat.num_zero, if_true, Bool.false_eq_true, if_false, digit] using numeral
  | @finite m e canonical shape =>
    have value : value? x = some (m * (2 : Rat) ^ e) := valueFinite shape
    generalize same : (m : Rat) * (2 : Rat) ^ e = r at value
    have above : 0 < r := same ▸ mul_pos (by exact_mod_cast canonical.pos) (zpow_pos (by decide) e)
    have num := Rat.num_pos.mpr above
    have ratio : (r.num.natAbs : Rat) / r.den = m * (2 : Rat) ^ e := by
      rw [same, Nat.cast_natAbs, abs_of_pos num, Rat.num_div_den]
    have reads := shortestReads r.den_pos canonical shape ratio
    have numeral := readDecimal (shortest x r.num.natAbs r.den).1 (shortest x r.num.natAbs r.den).2
    have found : shortest x.abs r.num.natAbs r.den = shortest x r.num.natAbs r.den := by rw [abs]
    rwa [reads, ← textFound value sign num.ne' found] at numeral

end TurtleBoard.Number
