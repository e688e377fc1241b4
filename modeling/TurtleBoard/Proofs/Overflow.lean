import TurtleBoard.Proofs.NormalForm

/-! Numbers in lines that are too great for a float. A decimal is read as a finite float up to half a last place above
the greatest of them, and as infinity from there on. A command is read again from its text as long as its number is
finite; the text of infinity is no number of a line. -/
namespace TurtleBoard
namespace Number

/- Half a last place above the greatest float `(2 ^ 53 - 1) * 2 ^ 971`, where ratios are no longer rounded to it. -/
def overflow : Rat := (2 ^ 54 - 1) * 2 ^ 970

def infinity : Float := Float.ofBits (UInt64.ofNat infinityBits)

theorem roundReaches (n : Nat) {d : Nat} (den : 0 < d) {k : Nat} (even : k % 2 = 0) :
    k ≤ roundHalfEven n d ↔ (k : Rat) - 1 / 2 ≤ n / d := by
  have denominator : (0 : Rat) < d := by exact_mod_cast den
  have doubled : (k : Rat) - 1 / 2 ≤ n / d ↔ 2 * (k * d) ≤ 2 * n + d := by
    rw [le_div_iff₀ denominator, ← Nat.cast_le (α := Rat)]
    push_cast
    constructor <;> intro <;> linarith
  have whole := Nat.div_add_mod' n d
  have rest := Nat.mod_lt n den
  rw [doubled, roundHalfEven]
  generalize n / d = quotient at whole ⊢
  generalize n % d = remainder at whole rest ⊢
  rcases lt_trichotomy k (quotient + 1) with below | rfl | above
  · have := Nat.mul_le_mul_right d (Nat.le_of_lt_succ below)
    split <;> omega
  · have step : (quotient + 1) * d = quotient * d + d := Nat.succ_mul quotient d
    split <;> omega
  · have := Nat.mul_le_mul_right d (show quotient + 2 ≤ k from above)
    have step : (quotient + 2) * d = quotient * d + 2 * d := Nat.add_mul quotient 2 d
    split <;> omega

theorem nearestScaled {n d : Nat} (pos : 0 < n) (den : 0 < d) {e : Int}
    (place : e = max (-1074) (Int.log 2 ((n : Rat) / d) - 52)) :
    ∃ n' d' : Nat, 0 < d' ∧ (n : Rat) / d = n' / d' * (2 : Rat) ^ e ∧
      nearest n d =
        Float.ofBits (UInt64.ofNat (min infinityBits ((e + 1074).toNat * 2 ^ 52 + roundHalfEven n' d'))) := by
  have last : (if n = 0 then -1074 else lastPlace n d) = e := by rw [if_neg pos.ne', lastPlaceLog pos den, place]
  have unit (k : Nat) : ((twoPow k : Nat) : Rat) = (2 : Rat) ^ k := by exact_mod_cast rfl
  rw [nearest]
  simp only [last]
  by_cases up : 0 ≤ e
  · refine ⟨n, d * twoPow e.toNat, Nat.mul_pos den (Nat.two_pow_pos _), ?_, by rw [if_pos up]; rfl⟩
    obtain ⟨k, rfl⟩ : ∃ k : Nat, e = k := ⟨e.toNat, by omega⟩
    rw [Int.toNat_natCast, Nat.cast_mul, unit, zpow_natCast]
    field_simp
  · refine ⟨n * twoPow (-e).toNat, d, den, ?_, by rw [if_neg up]; rfl⟩
    obtain ⟨k, rfl⟩ : ∃ k : Nat, e = -k := ⟨(-e).toNat, by omega⟩
    rw [neg_neg, Int.toNat_natCast, Nat.cast_mul, unit, zpow_neg, zpow_natCast]
    field_simp

section
variable {ratio : Rat} (pos : 0 < ratio) {e : Int} (place : e = max (-1074) (Int.log 2 ratio - 52))
include pos place

theorem scaledBelow {scaled : Rat} (same : ratio = scaled * (2 : Rat) ^ e) : scaled < 2 ^ 53 := by
  have above : ratio < (2 : Rat) ^ (53 + e) := (Int.lt_zpow_iff_log_lt (b := 2) (by decide) pos).mpr (by omega)
  rw [same, zpow_add₀ two_ne_zero] at above
  exact lt_of_mul_lt_mul_right above (zpow_nonneg (by decide) e)

theorem scaledAbove {scaled : Rat} (same : ratio = scaled * (2 : Rat) ^ e) (normal : -1074 < e) : 2 ^ 52 ≤ scaled := by
  have below : (2 : Rat) ^ (52 + e) ≤ ratio := (Int.zpow_le_iff_le_log (b := 2) (by decide) pos).mpr (by omega)
  rw [same, zpow_add₀ two_ne_zero] at below
  exact le_of_mul_le_mul_right below (zpow_pos (by decide) e)

/- The binade of a ratio against that of the greatest float: below it nothing is rounded to infinity, above it all is,
and in it what reaches the next power of two. -/
theorem binadeOverflow {n d : Nat} (den : 0 < d) (scaled : ratio = n / d * (2 : Rat) ^ e) :
    infinityBits ≤ (e + 1074).toNat * 2 ^ 52 + roundHalfEven n d ↔ overflow ≤ ratio := by
  have limit : infinityBits = 2047 * 2 ^ 52 := rfl
  have power (k : Nat) : (2 : Rat) ^ ((k + 970 : Nat) : Int) = 2 ^ k * 2 ^ 970 := by rw [zpow_natCast, pow_add]
  have narrow := scaledBelow pos place scaled
  rcases lt_trichotomy e 971 with low | rfl | high
  · have below : ratio < overflow :=
      calc
        ratio = n / d * (2 : Rat) ^ e := scaled
        _ ≤ 2 ^ 53 * (2 : Rat) ^ (970 : Int) := by
          gcongr
          · exact one_le_two
          · omega
        _ < overflow := by
          rw [overflow, show (2 : Rat) ^ (970 : Int) = _ from power 0, ← mul_assoc]
          exact mul_lt_mul_of_pos_right (by norm_num) (by positivity)
    have short := (roundReaches n den (k := 3 * 2 ^ 52) (by decide)).not.mpr (by
      push_cast
      linarith)
    exact iff_of_false (by omega) below.not_ge
  · have reached := roundReaches n den (k := 2 ^ 53) (by decide)
    have top : overflow = (((2 ^ 53 : Nat) : Rat) - 1 / 2) * (2 : Rat) ^ (971 : Int) := by
      rw [overflow, show (2 : Rat) ^ (971 : Int) = _ from power 1, ← mul_assoc]
      refine congrArg (· * (2 : Rat) ^ 970) ?_
      norm_num
    rw [scaled, top, mul_le_mul_iff_left₀ (zpow_pos (by decide) 971), ← reached]
    omega
  · have wide := scaledAbove pos place scaled (by omega)
    have reached := (roundReaches n den (k := 2 ^ 52) (by decide)).mpr (by
      push_cast
      linarith)
    have above : overflow ≤ ratio :=
      calc
        overflow ≤ 2 ^ 52 * (2 : Rat) ^ (972 : Int) := by
          rw [overflow, show (2 : Rat) ^ (972 : Int) = _ from power 2, ← mul_assoc]
          exact mul_le_mul_of_nonneg_right (by norm_num) (by positivity)
        _ ≤ n / d * (2 : Rat) ^ e := by
          gcongr
          · exact one_le_two
          · omega
        _ = ratio := scaled.symm
    exact iff_of_true (by omega) above

end

inductive Rounded (q : Rat) (x : Float) : Prop where
  | finite (below : q < overflow) (magnitude : Magnitude x)
  | infinite (beyond : overflow ≤ q) (same : x = infinity)

theorem nearestRounded (n : Nat) {d : Nat} (den : 0 < d) : Rounded (n / d) (nearest n d) := by
  rcases n.eq_zero_or_pos with rfl | pos
  · have zero : ((0 : Nat) : Rat) / d = 0 := by rw [Nat.cast_zero, zero_div]
    rw [zero]
    exact .finite (by rw [overflow]; positivity) (.zero (nearestZero d))
  · obtain ⟨n', d', den', scaled, same⟩ := nearestScaled pos den rfl
    have beyondIff := binadeOverflow (by positivity) rfl den' scaled
    rw [same]
    by_cases beyond : overflow ≤ (n : Rat) / d
    · rw [min_eq_left (beyondIff.mpr beyond)]
      exact .infinite beyond rfl
    · have within := not_le.mp (beyondIff.not.mpr beyond)
      rw [min_eq_right within.le]
      exact .finite (not_le.mp beyond) (bitsMagnitude within)

theorem Magnitude.value {x : Float} (magnitude : Magnitude x) : ∃ r, value? x = some r ∧ 0 ≤ r := by
  cases magnitude with
  | zero shape => exact ⟨0, by rw [value?, shape], le_rfl⟩
  | finite canonical shape =>
    refine ⟨_, valueFinite shape, mul_nonneg ?_ (zpow_nonneg (by decide) _)⟩
    exact Int.cast_nonneg (Int.natCast_nonneg _)

inductive Decimal : List Char → Rat → Prop where
  | whole {ds : List Char} (digits : Digits IsDigit ds) : Decimal ds (digitsValue ds)
  | point {ds fs : List Char} (digits : Digits IsDigit ds) (places : Digits IsDigit fs) :
      Decimal (ds ++ '.' :: fs) (digitsValue ds + digitsValue fs / 10 ^ fs.length)

theorem digitsAppend (ds fs : List Char) :
    digitsValue (ds ++ fs) = digitsValue ds * 10 ^ fs.length + digitsValue fs := by
  change Nat.ofDigitChars 10 _ 0 = _
  rw [Nat.ofDigitChars_append, Nat.ofDigitChars_eq_ofDigitChars_zero, mul_comm]
  rfl

theorem wholeRounded (ds : List Char) : Rounded (digitsValue ds) (ofDecimal (digitsValue ds) 0) := by
  have rounded := nearestRounded (digitsValue ds) (d := 1) one_pos
  rwa [Nat.cast_one, div_one] at rounded

theorem pointRounded (ds fs : List Char) :
    Rounded (digitsValue ds + digitsValue fs / 10 ^ fs.length) (ofDecimal (digitsValue (ds ++ fs)) fs.length) := by
  have rounded := nearestRounded (digitsValue (ds ++ fs)) (d := tenPow fs.length) (Nat.pow_pos (by decide))
  have tens : ((tenPow fs.length : Nat) : Rat) = 10 ^ fs.length := by exact_mod_cast rfl
  rw [tens, digitsAppend, Nat.cast_add, Nat.cast_mul, Nat.cast_pow, Nat.cast_ofNat, add_div,
    mul_div_cancel_right₀ _ (by positivity)] at rounded
  rw [ofDecimal, if_pos (Int.natCast_nonneg _), Int.toNat_natCast, digitsAppend]
  exact rounded

theorem Rounded.infiniteIff {q : Rat} {x : Float} (rounded : Rounded q x) : x = infinity ↔ overflow ≤ q := by
  cases rounded with
  | infinite beyond same => exact iff_of_true same beyond
  | finite below magnitude =>
    refine iff_of_false ?_ below.not_ge
    rintro rfl
    obtain ⟨r, value, _⟩ := magnitude.value
    rw [infinity, infinityValue] at value
    contradiction

theorem numeralDecimal {cs : List Char} {n : Float} (numeral : Numeral IsDigit cs n) : ∃ q, Decimal cs q := by
  cases numeral with
  | whole digits => exact ⟨_, .whole digits⟩
  | point digits places => exact ⟨_, .point digits places⟩

theorem Decimal.rounded {cs : List Char} {q : Rat} {n : Float} (decimal : Decimal cs q)
    (numeral : Numeral IsDigit cs n) : Rounded q n := by
  have once {x : Float} (other : Numeral IsDigit cs x) : x = n :=
    Option.some.inj (((readPlainIff cs x).mpr other).symm.trans ((readPlainIff cs n).mpr numeral))
  cases decimal with
  | whole digits => exact once (.whole digits) ▸ wholeRounded _
  | point digits places => exact once (.point digits places) ▸ pointRounded _ _

end Number

namespace Line
open Number (Decimal IsDigit Numeral Magnitude)

inductive Overflows : List Char → Prop where
  | number {word numeral : List Char} {q : Rat} (decimal : Decimal numeral q) (beyond : Number.overflow ≤ q) :
      Overflows (word ++ ' ' :: numeral)

theorem Overflows.blank {line : List Char} (overflows : Overflows line) : ' ' ∈ line := by
  obtain ⟨_, _⟩ := overflows
  exact List.mem_append_right _ List.mem_cons_self

theorem overflowsNumber {word numeral : List Char} {q : Rat} (named : ' ' ∉ word) (plain : ' ' ∉ numeral)
    {n : Float} (reads : Numeral IsDigit numeral n) (decimal : Decimal numeral q) :
    Overflows (word ++ ' ' :: numeral) ↔ Number.overflow ≤ q := by
  constructor
  · generalize same : word ++ ' ' :: numeral = line
    rintro ⟨decimal', beyond⟩
    obtain ⟨-, -, rfl⟩ := (List.append_cons_inj_of_notMem named plain).mp same
    exact (decimal.rounded reads).infiniteIff.mp ((decimal'.rounded reads).infiniteIff.mpr beyond)
  · exact .number decimal

section
variable {p : Production} {keyword : String} (mem : keyword ∈ p.keywords) (other : p ≠ .colorOff)
include mem other

theorem aloneFits {line : List Char} (spelled : Spells keyword.toList line) : ¬Overflows line := by
  intro overflows
  have blank := (spellsBlank (Production.keywordsPlain p keyword mem) spelled).mp overflows.blank
  exact Production.keywordsBlank p other keyword mem blank

theorem numeralFits {numeral line : List Char} {n : Float} (follows : Follows keyword.toList numeral line)
    (reads : Numeral IsDigit numeral n) :
    Overflows line ∧ n = Number.infinity ∨ ¬Overflows line ∧ Magnitude n := by
  obtain ⟨spelled⟩ := follows
  have named := (spellsBlank (Production.keywordsPlain p keyword mem) spelled).not.mpr
    (Production.keywordsBlank p other keyword mem)
  have plain : ' ' ∉ numeral := fun blank => absurd (Number.numeralVisible reads ' ' blank) (by decide)
  obtain ⟨q, decimal⟩ := Number.numeralDecimal reads
  have overflowsIff := overflowsNumber named plain reads decimal
  cases decimal.rounded reads with
  | finite below magnitude => exact .inr ⟨overflowsIff.not.mpr below.not_ge, magnitude⟩
  | infinite beyond same => exact .inl ⟨overflowsIff.mpr beyond, same⟩

end

theorem numberFits {p : Production} {line : List Char} {command : Command Float}
    (means : p.Means IsDigit line command) :
    ∀ n ∈ command.number?, Overflows line ∧ n = Number.infinity ∨ ¬Overflows line ∧ Magnitude n := by
  obtain ⟨keyword, mem, means⟩ := means
  cases p with
  | forward =>
    obtain ⟨spelled, rfl⟩ := Shape.meansAlone.mp means
    rintro _ ⟨⟩
    exact .inr ⟨aloneFits mem (by decide) spelled, oneMagnitude⟩
  | left | right =>
    obtain ⟨spelled, rfl⟩ := Shape.meansAlone.mp means
    rintro _ ⟨⟩
    exact .inr ⟨aloneFits mem (by decide) spelled, ninetyMagnitude⟩
  | forwardBy | leftBy | rightBy | width =>
    obtain ⟨n, ⟨numeral, follows, reads⟩, rfl⟩ := Shape.meansNumber.mp means
    rintro _ ⟨⟩
    exact numeralFits mem (by decide) follows reads
  | colorOff =>
    obtain ⟨-, rfl⟩ := Shape.meansAlone.mp means
    exact nofun
  | color | say =>
    obtain ⟨_, -, rfl⟩ := Shape.meansWords.mp means
    exact nofun

theorem infinityUnread {command : Command Float} (infinite : Number.infinity ∈ command.number?) :
    action? command.text = none := by
  cases command with
  | step n | turnLeft n | turnRight n | width n =>
    obtain rfl : n = Number.infinity := Option.some.inj infinite
    decide +kernel
  | color _ | say _ => contradiction

structure Kept (line : List Char) (command : Command Float) : Prop where
  finite : ¬Overflows line → ∀ n ∈ command.number?, ∃ r, Number.value? n = some r ∧ 0 ≤ r
  infinite : Overflows line → ∀ n ∈ command.number?, n = Number.infinity
  text : action? command.text =
    if command.number?.all Scalar.isFinite then some ⟨command, command.text⟩ else none

theorem numbersKept {line : String} {action : Action Float} (read : action? line = some action) :
    Kept (Text.trim line.toList) action.command := by
  obtain ⟨⟨p, means, -⟩, -⟩ := (actionIff line action).mp read
  have fits := numberFits means
  constructor
  · intro fitting n mem
    rcases fits n mem with ⟨overflows, -⟩ | ⟨-, magnitude⟩
    · contradiction
    · exact magnitude.value
  · intro overflows n mem
    rcases fits n mem with ⟨-, same⟩ | ⟨fitting, -⟩
    · exact same
    · contradiction
  · split
    · rename_i finite
      exact actionWritten (actionPrintable read fun n mem => Option.all_eq_true _ _ |>.mp finite n mem)
    · rename_i infinite
      obtain ⟨n, mem, stray⟩ : ∃ n ∈ action.command.number?, ¬Scalar.isFinite n = true := by
        simpa [Option.all_eq_true] using infinite
      rcases fits n mem with ⟨-, rfl⟩ | ⟨-, magnitude⟩
      · exact infinityUnread mem
      · obtain ⟨r, value, -⟩ := magnitude.value
        exact absurd (Option.isSome_of_mem value) stray

theorem numbersKeptTurning :
    ∃ action, action? " RIGHT 22.50 " = some action ∧ action.command = .turnRight 22.5 ∧
      Kept "RIGHT 22.50".toList action.command ∧ action? "right 22.5" = some ⟨action.command, "right 22.5"⟩ := by
  have command : (action? " RIGHT 22.50 ").map (·.command) = some (.turnRight 22.5) := by decide +kernel
  obtain ⟨action, read, same⟩ := Option.map_eq_some_iff.mp command
  have kept := numbersKept read
  have finite : action.command.number?.all Scalar.isFinite = true := by
    rw [same]
    decide +kernel
  have text : action.command.text = "right 22.5" := by
    rw [same]
    decide +kernel
  have again := kept.text
  rw [if_pos finite, text] at again
  exact ⟨action, read, same, kept, again⟩

theorem hugeStepUnread :
    action? ("forward 1".pushn '0' 309) = some ⟨.step Number.infinity, "forward 1".pushn '0' 309⟩ ∧
      Scalar.isFinite Number.infinity = false ∧ action? (Command.step Number.infinity).text = none := by
  refine ⟨Written.read (p := .forwardBy) ?_, by decide +kernel, infinityUnread rfl⟩
  obtain ⟨digits, huge⟩ : ∃ digits, digits = '1' :: List.replicate 309 '0' := ⟨_, rfl⟩
  have line : ("forward 1".pushn '0' 309).toList = "forward".toList ++ ' ' :: digits := by
    rw [Number.paddingList, huge]
    rfl
  have filled := (Number.allDigitsIff digits).mp (by rw [huge]; decide +kernel)
  have great : 18014398509481983 * 2 ^ 970 ≤ Number.digitsValue digits := by
    rw [huge]
    decide +kernel
  have beyond : Number.overflow ≤ (Number.digitsValue digits : Rat) := by
    rw [Number.overflow, show (2 : Rat) ^ 54 - 1 = (18014398509481983 : Nat) by norm_num]
    exact_mod_cast great
  rw [line, ← (Number.wholeRounded digits).infiniteIff.mpr beyond]
  exact writtenNumber .forwardBy "forward" (by decide) rfl (.whole filled)

end Line
end TurtleBoard
