import TurtleBoard.Proofs.Clipping
import TurtleBoard.Proofs.Floats
import TurtleBoard.Ruling

/-! The ruled lines in exact arithmetic. Along each side of the canvas they are equally spaced from one just beyond the
one edge to one just beyond the other, with the center line in the middle. -/
namespace TurtleBoard

namespace Number

theorem truncateNonneg {r : Rat} (nonneg : 0 ≤ r) : truncate r = r.floor := by
  rw [truncate, Rat.floor_def, Int.tdiv_eq_ediv_of_nonneg (Rat.num_nonneg.mpr nonneg)]

end Number

namespace Scalar

theorem holdInside {lo hi n : Int} (low : lo ≤ n) (high : n ≤ hi) : hold lo hi n = n := by
  rw [hold, if_neg (Int.not_lt.mpr low), if_neg (Int.not_lt.mpr high)]

end Scalar

namespace Ruling

section symmetric
variable {n : Int}

theorem symmetricGet (i : Nat) :
    (symmetric n)[i]? = if (i : Int) < 2 * n + 1 then some ((i : Int) - n) else none := by
  rw [symmetric, List.getElem?_map]
  split
  · rename_i inside
    rw [List.getElem?_range (by omega), Option.map_some]
  · rename_i outside
    rw [List.getElem?_eq_none (by rw [List.length_range]; omega), Option.map_none]

theorem memSymmetric {i : Int} : i ∈ symmetric n ↔ -n ≤ i ∧ i ≤ n := by
  rw [symmetric, List.mem_map]
  constructor
  · rintro ⟨j, below, rfl⟩
    have := List.mem_range.mp below
    omega
  · rintro ⟨lower, upper⟩
    exact ⟨(i + n).toNat, List.mem_range.mpr (by omega), by omega⟩

theorem symmetricNodup : (symmetric n).Nodup := by
  refine List.nodup_range.map fun i j same => ?_
  have same : (i : Int) - n = (j : Int) - n := same
  omega

theorem symmetricReverse (nonneg : 0 ≤ n) : (symmetric n).reverse = (symmetric n).map (-·) := by
  refine List.ext_getElem? fun i => ?_
  have length : (symmetric n).length = (2 * n + 1).toNat := by rw [symmetric, List.length_map, List.length_range]
  rw [List.getElem?_map, symmetricGet]
  split
  · rename_i inside
    rw [List.getElem?_reverse (by omega), symmetricGet, if_pos (by omega), Option.map_some]
    congr 1
    omega
  · rename_i outside
    rw [List.getElem?_eq_none (by rw [List.length_reverse]; omega), Option.map_none]

theorem symmetricCenter (nonneg : 0 ≤ n) : (symmetric n).filter (· == 0) = [0] := by
  have once : (symmetric n).count 0 = 1 :=
    List.count_eq_one_of_mem symmetricNodup (memSymmetric.mpr ⟨by omega, nonneg⟩)
  rw [List.filter_beq, once, List.replicate_one]

theorem symmetricEnds (nonneg : 0 ≤ n) :
    symmetric (n + 1) = -(n + 1) :: (symmetric n ++ [n + 1]) := by
  refine List.ext_getElem? fun i => ?_
  have length : (symmetric n).length = (2 * n + 1).toNat := by rw [symmetric, List.length_map, List.length_range]
  rw [symmetricGet]
  cases i with
  | zero =>
    rw [if_pos (by omega), List.getElem?_cons_zero]
    congr 1
    omega
  | succ i =>
    rw [List.getElem?_cons_succ]
    rcases lt_trichotomy (i : Int) (2 * n + 1) with inside | last | outside
    · rw [List.getElem?_append_left (by omega), symmetricGet, if_pos inside, if_pos (by push_cast; omega)]
      congr 1
      push_cast
      omega
    · rw [List.getElem?_append_right (by omega), if_pos (by push_cast; omega), length,
        show i - (2 * n + 1).toNat = 0 by omega, List.getElem?_cons_zero]
      congr 1
      push_cast
      omega
    · rw [List.getElem?_append_right (by omega), if_neg (by push_cast; omega), List.getElem?_eq_none]
      rw [length, List.length_singleton]
      omega

end symmetric

theorem weightCenter (i : Int) : weightAt i = .center ↔ i = 0 := by
  rw [weightAt]
  split
  · exact iff_of_true rfl (by assumption)
  · rename_i other
    split <;> exact iff_of_false nofun other

theorem weightFifth (i : Int) : weightAt i = .fifth ↔ ∃ j, j ≠ 0 ∧ i = 5 * j := by
  rw [weightAt]
  split
  · rename_i center
    refine iff_of_false nofun ?_
    rintro ⟨j, other, same⟩
    omega
  · rename_i other
    split
    · rename_i fifth
      exact iff_of_true rfl ⟨i / 5, by omega, by omega⟩
    · rename_i plain
      refine iff_of_false nofun ?_
      rintro ⟨j, _, same⟩
      omega

theorem weightEven (i : Int) : weightAt (-i) = weightAt i := by
  have center : -i = 0 ↔ i = 0 := neg_eq_zero
  have fifth : -i % 5 = 0 ↔ i % 5 = 0 := by omega
  simp only [weightAt, center, fifth]

theorem colorsApart : Function.Injective Weight.color := by
  intro a b
  cases a <;> cases b <;> decide

structure Covers (steps : Nat) (step extent : Rat) (rules : List (Rat × Weight)) : Prop where
  spaced : ∀ i a b, rules[i]? = some a → rules[i + 1]? = some b → b.1 = a.1 + step
  symmetric : rules.reverse = rules.map fun rule => (extent - rule.1, rule.2)
  center : rules.filter (fun rule => rule.2 = .center) = [(extent / 2, .center)]
  fifth : ∀ rule ∈ rules, rule.2 = .fifth ↔ ∃ j : Int, j ≠ 0 ∧ rule.1 = extent / 2 + 5 * j * step
  before : steps ≤ (rules.filter fun rule => 0 < rule.1 ∧ rule.1 < extent / 2).length
  behind : steps ≤ (rules.filter fun rule => extent / 2 < rule.1 ∧ rule.1 < extent).length
  ends : ∃ first inner last, rules = first :: (inner ++ [last]) ∧ first.1 < 0 ∧ extent < last.1 ∧
    inner ≠ [] ∧ ∀ rule ∈ inner, 0 ≤ rule.1 ∧ rule.1 ≤ extent
  between : ∀ x, 0 ≤ x → x ≤ extent →
    ∃ i a b, rules[i]? = some a ∧ rules[i + 1]? = some b ∧ a.1 ≤ x ∧ x < b.1

def ruleAt (step extent : Rat) (i : Int) : Rat × Weight := (extent / 2 + i * step, weightAt i)

def rulesOf (step extent : Rat) (n : Int) : List (Rat × Weight) := (symmetric n).map (ruleAt step extent)

section axis
variable {step extent : Rat}

theorem rulesGet (n : Int) (i : Nat) : (rulesOf step extent n)[i]? =
    if (i : Int) < 2 * n + 1 then some (ruleAt step extent (i - n)) else none := by
  rw [rulesOf, List.getElem?_map, symmetricGet]
  split <;> rfl

theorem ruleMirrored (i : Int) :
    ruleAt step extent (-i) = (extent - (ruleAt step extent i).1, (ruleAt step extent i).2) := by
  simp only [ruleAt, weightEven, Prod.mk.injEq, and_true]
  push_cast
  ring

variable (pos : 0 < step)
include pos

theorem ruleInjective : Function.Injective (ruleAt step extent) := by
  intro i j same
  have places : extent / 2 + i * step = extent / 2 + j * step := congrArg Prod.fst same
  exact_mod_cast mul_right_cancel₀ pos.ne' (add_left_cancel places)

theorem rulesCounted {n : Int} {steps : Nat} (place : Nat → Int) (injective : Function.Injective place)
    (test : Rat × Weight → Bool)
    (passes : ∀ j < steps, place j ∈ symmetric n ∧ test (ruleAt step extent (place j)) = true) :
    steps ≤ ((rulesOf step extent n).filter test).length := by
  have distinct : ((List.range steps).map fun j => ruleAt step extent (place j)).Nodup :=
    List.nodup_range.map ((ruleInjective pos).comp injective)
  have among : (List.range steps).map (fun j => ruleAt step extent (place j)) ⊆
      (rulesOf step extent n).filter test := by
    intro rule mem
    obtain ⟨j, below, rfl⟩ := List.mem_map.mp mem
    have here := passes j (List.mem_range.mp below)
    exact List.mem_filter.mpr ⟨List.mem_map_of_mem here.1, here.2⟩
  have counted := (distinct.subperm among).length_le
  rwa [List.length_map, List.length_range] at counted

omit pos in
theorem rulesSpaced (n : Int) {i : Nat} {a b : Rat × Weight} (here : (rulesOf step extent n)[i]? = some a)
    (next : (rulesOf step extent n)[i + 1]? = some b) : b.1 = a.1 + step := by
  rw [rulesGet] at here next
  split at next
  · rw [if_pos (by omega)] at here
    cases here
    cases next
    simp only [ruleAt]
    push_cast
    ring
  · contradiction

omit pos in
theorem rulesMirrored {n : Int} (nonneg : 0 ≤ n) : (rulesOf step extent n).reverse =
    (rulesOf step extent n).map fun rule => (extent - rule.1, rule.2) := by
  rw [rulesOf, ← List.map_reverse, symmetricReverse nonneg, List.map_map, List.map_map]
  exact List.map_congr_left fun i _ => ruleMirrored i

omit pos in
theorem rulesCenter {n : Int} (nonneg : 0 ≤ n) :
    (rulesOf step extent n).filter (fun rule => rule.2 = .center) = [(extent / 2, .center)] := by
  have same : (fun rule : Rat × Weight => decide (rule.2 = .center)) ∘ ruleAt step extent = (· == 0) := by
    funext i
    simp only [Function.comp_apply, ruleAt, weightCenter, beq_eq_decide]
  rw [rulesOf, List.filter_map, same, symmetricCenter nonneg, List.map_singleton, ruleAt]
  simp only [Int.cast_zero, zero_mul, add_zero, weightAt, if_true]

theorem ruleFifth (i : Int) :
    (ruleAt step extent i).2 = .fifth ↔ ∃ j : Int, j ≠ 0 ∧ (ruleAt step extent i).1 = extent / 2 + 5 * j * step := by
  simp only [ruleAt, weightFifth]
  refine exists_congr fun j => and_congr_right fun _ => ?_
  rw [add_right_inj, mul_right_cancel_iff_of_pos pos]
  norm_cast

theorem ruleInside {steps : Nat} (enough : steps * step < extent / 2) {j : Nat} (below : j < steps) :
    (0 < (ruleAt step extent (-(j + 1))).1 ∧ (ruleAt step extent (-(j + 1))).1 < extent / 2) ∧
      extent / 2 < (ruleAt step extent (j + 1)).1 ∧ (ruleAt step extent (j + 1)).1 < extent := by
  have upper : (j + 1 : Rat) ≤ steps := by exact_mod_cast below
  have length : 0 < (j + 1 : Rat) * step := by positivity
  have within := (mul_le_mul_of_nonneg_right upper pos.le).trans_lt enough
  simp only [ruleAt]
  push_cast
  refine ⟨⟨?_, ?_⟩, ?_, ?_⟩ <;> linarith

theorem rulesEnds {n : Int} (nonneg : 0 ≤ n) (reach : extent / 2 < (n + 1) * step) (inside : n * step ≤ extent / 2) :
    ∃ first inner last, rulesOf step extent (n + 1) = first :: (inner ++ [last]) ∧ first.1 < 0 ∧ extent < last.1 ∧
      inner ≠ [] ∧ ∀ rule ∈ inner, 0 ≤ rule.1 ∧ rule.1 ≤ extent := by
  have center : (0 : Int) ∈ symmetric n := memSymmetric.mpr ⟨by omega, nonneg⟩
  refine ⟨ruleAt step extent (-(n + 1)), rulesOf step extent n, ruleAt step extent (n + 1), ?_, ?_, ?_,
    List.ne_nil_of_mem (List.mem_map_of_mem center), ?_⟩
  · rw [rulesOf, symmetricEnds nonneg, List.map_cons, List.map_append, List.map_singleton, rulesOf]
  · simp only [ruleAt]
    push_cast
    linarith
  · simp only [ruleAt]
    push_cast
    linarith
  · intro rule mem
    obtain ⟨i, among, rfl⟩ := List.mem_map.mp mem
    obtain ⟨lower, upper⟩ := memSymmetric.mp among
    have left : (-n : Rat) ≤ i := by exact_mod_cast lower
    have right : (i : Rat) ≤ n := by exact_mod_cast upper
    have lowest := mul_le_mul_of_nonneg_right left pos.le
    have highest := mul_le_mul_of_nonneg_right right pos.le
    simp only [ruleAt]
    constructor <;> linarith

theorem rulesBetween {n : Int} (reach : extent / 2 < (n + 1) * step) {x : Rat} (lower : 0 ≤ x) (upper : x ≤ extent) :
    ∃ i a b, (rulesOf step extent (n + 1))[i]? = some a ∧ (rulesOf step extent (n + 1))[i + 1]? = some b ∧
      a.1 ≤ x ∧ x < b.1 := by
  obtain ⟨below, above⟩ := Number.floorEq.mp (rfl : ((x - extent / 2) / step).floor = _)
  generalize ((x - extent / 2) / step).floor = j at below above
  rw [le_div_iff₀ pos] at below
  rw [div_lt_iff₀ pos] at above
  have first : -(n + 1) < j + 1 := by
    have : (-(n + 1) : Rat) < j + 1 := lt_of_mul_lt_mul_right (by linarith) pos.le
    exact_mod_cast this
  have last : j < n + 1 := by
    have : (j : Rat) < n + 1 := lt_of_mul_lt_mul_right (by linarith) pos.le
    exact_mod_cast this
  refine ⟨(j + (n + 1)).toNat, ruleAt step extent j, ruleAt step extent (j + 1), ?_, ?_, ?_, ?_⟩
  · rw [rulesGet, if_pos (by omega)]
    congr 2
    omega
  · rw [rulesGet, if_pos (by omega)]
    congr 2
    omega
  · simp only [ruleAt]
    linarith
  · simp only [ruleAt]
    push_cast
    linarith

/- The lines to `n + 1` steps on both sides cover an extent of less than that and of no less than `n` steps. -/
theorem rulesCover {steps : Nat} {n : Int} (reach : extent / 2 < (n + 1) * step) (inside : n * step ≤ extent / 2)
    (enough : steps * step < extent / 2) : Covers steps step extent (rulesOf step extent (n + 1)) := by
  have least : (steps : Int) ≤ n := by
    have : (steps : Rat) < n + 1 := lt_of_mul_lt_mul_right (enough.trans reach) pos.le
    exact Int.lt_add_one_iff.mp (by exact_mod_cast this)
  refine ⟨fun i a b => rulesSpaced (n + 1), rulesMirrored (by omega), rulesCenter (by omega), ?_, ?_, ?_,
    rulesEnds pos (by omega) reach inside, fun x => rulesBetween pos reach⟩
  · intro rule mem
    obtain ⟨i, _, rfl⟩ := List.mem_map.mp mem
    exact ruleFifth pos i
  · refine rulesCounted pos (fun j => -((j : Int) + 1)) (fun i j same => by simpa using same) _ fun j below => ?_
    exact ⟨memSymmetric.mpr ⟨by omega, by omega⟩, decide_eq_true (ruleInside pos enough below).1⟩
  · refine rulesCounted pos (fun j => (j : Int) + 1) (fun i j same => by simpa using same) _ fun j below => ?_
    exact ⟨memSymmetric.mpr ⟨by omega, by omega⟩, decide_eq_true (ruleInside pos enough below).2⟩

end axis

theorem stepSizeRat (steps : Nat) (width height : Rat) :
    stepSize steps width height = (width ⊓ height) / (2 * steps + 1) := by
  rw [mul_comm, ← Scalar.minRat]
  rfl

theorem lineCountRat {center step : Rat} (nonneg : 0 ≤ center / step)
    (fits : (center / step).floor < Number.maxWord) : lineCount center step = (center / step).floor + 1 := by
  have least : 0 ≤ (center / step).floor := Rat.le_floor_iff.mpr (by exact_mod_cast nonneg)
  have low : Number.minWord < 0 := by decide
  change Scalar.hold _ _ (Number.truncate (center / step)) + 1 = _
  rw [Number.truncateNonneg nonneg, Scalar.holdInside (by omega) (by omega)]

def upright (height : Rat) (rule : Rat × Weight) : Line Rat := ⟨⟨rule.1, 0⟩, ⟨rule.1, height⟩, rule.2⟩

def level (width : Rat) (rule : Rat × Weight) : Line Rat := ⟨⟨0, rule.1⟩, ⟨width, rule.1⟩, rule.2⟩

theorem linesRat {step : Rat} (pos : 0 < step) (width height : Rat) :
    lines step width height =
      (rulesOf step width (lineCount (width / 2) step)).map (upright height) ++
        (rulesOf step height (lineCount (height / 2) step)).map (level width) := by
  simp only [lines, offsets, Scalar.leRat, Scalar.zeroRat, not_le.mpr pos, decide_false, Bool.false_eq_true, if_false,
    rulesOf, List.map_map]
  rfl

theorem axisCovers {steps : Nat} {step extent : Rat} (pos : 0 < step) (enough : steps * step < extent / 2)
    (fits : (extent / 2 / step).floor < Number.maxWord) :
    Covers steps step extent (rulesOf step extent (lineCount (extent / 2) step)) := by
  have center : 0 ≤ extent / 2 / step := div_nonneg ((mul_nonneg steps.cast_nonneg pos.le).trans enough.le) pos.le
  obtain ⟨below, above⟩ := Number.floorEq.mp (rfl : (extent / 2 / step).floor = _)
  rw [lineCountRat center fits]
  exact rulesCover pos ((div_lt_iff₀ pos).mp above) ((le_div_iff₀ pos).mp below) enough

theorem linesCover (steps : Nat) (width height : Rat) :
    stepSize steps width height = (width ⊓ height) / (2 * steps + 1) ∧
      (0 < width → 0 < height →
        (width / 2 / stepSize steps width height).floor < Number.maxWord →
        (height / 2 / stepSize steps width height).floor < Number.maxWord →
        ∃ columns rows, lines (stepSize steps width height) width height =
            columns.map (upright height) ++ rows.map (level width) ∧
          Covers steps (stepSize steps width height) width columns ∧
          Covers steps (stepSize steps width height) height rows) ∧
      (width = 0 ∨ height = 0 → lines (stepSize steps width height) width height = []) ∧
      Function.Injective Weight.color := by
  have room : (0 : Rat) < 2 * steps + 1 := by positivity
  refine ⟨stepSizeRat steps width height, ?_, ?_, colorsApart⟩
  · intro wide high columnsFit rowsFit
    have pos : 0 < stepSize steps width height := by
      rw [stepSizeRat]
      exact div_pos (lt_min wide high) room
    -- The smaller side has half a step of margin, so the given number of steps ends before it does.
    have enough : steps * stepSize steps width height < (width ⊓ height) / 2 := by
      have whole : (2 * steps + 1) * stepSize steps width height = width ⊓ height := by
        rw [stepSizeRat, mul_div_cancel₀ _ room.ne']
      linarith
    have columns := enough.trans_le (div_le_div_of_nonneg_right (min_le_left width height) two_pos.le)
    have rows := enough.trans_le (div_le_div_of_nonneg_right (min_le_right width height) two_pos.le)
    exact ⟨_, _, linesRat pos width height, axisCovers pos columns columnsFit, axisCovers pos rows rowsFit⟩
  · intro flat
    have none : stepSize steps width height ≤ 0 := by
      rw [stepSizeRat]
      refine div_nonpos_of_nonpos_of_nonneg ?_ room.le
      rcases flat with rfl | rfl
      · exact min_le_left _ _
      · exact min_le_right _ _
    rw [lines, Scalar.leRat, Scalar.zeroRat, decide_eq_true none, if_pos rfl]

theorem linesCoverWide :
    let step : Rat := stepSize 2 20 10
    (0 < (20 : Rat) ∧ 0 < (10 : Rat) ∧ (20 / 2 / step).floor < Number.maxWord ∧
        (10 / 2 / step).floor < Number.maxWord) ∧
      ∃ columns rows, lines step 20 10 = columns.map (upright 10) ++ rows.map (level 20) ∧
        Covers 2 step 20 columns ∧ Covers 2 step 10 rows := by
  intro step
  have hypotheses : 0 < (20 : Rat) ∧ 0 < (10 : Rat) ∧ (20 / 2 / step).floor < Number.maxWord ∧
      (10 / 2 / step).floor < Number.maxWord := by decide +kernel
  exact ⟨hypotheses, (linesCover 2 20 10).2.1 hypotheses.1 hypotheses.2.1 hypotheses.2.2.1 hypotheses.2.2.2⟩

end Ruling
end TurtleBoard
