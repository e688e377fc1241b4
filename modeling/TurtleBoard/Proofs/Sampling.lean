import TurtleBoard.Proofs.Cells
import TurtleBoard.Proofs.Clipping

/-! The points that a line is drawn by, in exact arithmetic. There are enough of them that no step from one to the next
is wider or higher than a cell, so the cells leave no gap; and there are no more than the longer side has cells. A
point of the canvas has a cell unless it is on the right or the lower edge. -/
namespace TurtleBoard

namespace Number

theorem floorStep {a b : Rat} (close : a ≤ b + 1) : a.floor ≤ b.floor + 1 :=
  Rat.floor_add_one ▸ Rat.floor_monotone close

end Number

namespace Scalar

theorem floorInRat (lo hi : Int) (x : Rat) : floorIn lo hi x = hold lo hi x.floor := rfl

theorem ceilInRat (lo hi : Int) (x : Rat) : ceilIn lo hi x = hold lo hi x.ceil := rfl

end Scalar

namespace Raster
open Point (OnSegment)

section cells

theorem widthRat (x : Rat) : x / cellWidth = x := div_one x

theorem heightRat (y : Rat) : y / cellHeight = y / 2 := rfl

theorem pixelSizeRat (cols rows : Nat) : pixelSize cols rows = ((cols : Rat), (2 * rows : Rat)) := by
  rw [mul_comm]
  exact Prod.ext (mul_one (cols : Rat)) rfl

variable {cols rows : Nat} {p : Point Rat}

theorem indexRat {count i : Nat} {t : Rat} : index? count t = some i ↔ i < count ∧ t.floor = i :=
  indexHeld (beq_self_eq_true t) (Scalar.floorInRat _ _ t) i

theorem cellRat {col row : Nat} : cellOf? cols rows p = some (col, row) ↔
    (col < cols ∧ p.x.floor = col) ∧ row < rows ∧ (p.y / 2).floor = row := by
  rw [← indexRat, ← indexRat, cellOf?, widthRat, heightRat]
  cases index? cols p.x <;> cases index? rows (p.y / 2) <;> simp

structure Holds (place : Nat × Nat) (p : Point Rat) : Prop where
  left : place.1 ≤ p.x
  right : p.x < place.1 + 1
  top : 2 * place.2 ≤ p.y
  bottom : p.y < 2 * (place.2 + 1)

theorem cellHolds {place : Nat × Nat} (found : cellOf? cols rows p = some place) :
    place.1 < cols ∧ place.2 < rows ∧ Holds place p := by
  obtain ⟨⟨wide, column⟩, high, row⟩ := cellRat.mp found
  obtain ⟨left, right⟩ := Number.floorEq.mp column
  obtain ⟨top, bottom⟩ := Number.floorEq.mp row
  rw [Int.cast_natCast] at left right top bottom
  exact ⟨wide, high, left, right, by linarith, by linarith⟩

theorem floorBelow? {c : Rat} {count : Nat} (nonneg : 0 ≤ c) :
    (∃ i < count, c.floor = (i : Int)) ↔ c < count := by
  rw [← Int.cast_natCast count, ← Rat.floor_lt_iff]
  have above := Rat.le_floor_iff.mpr (show ((0 : Int) : Rat) ≤ c by rwa [Int.cast_zero])
  constructor
  · rintro ⟨i, below, same⟩
    omega
  · intro below
    exact ⟨c.floor.toNat, by omega, by omega⟩

/- A point of the canvas has a cell, but for the edges on which cells end. -/
theorem cellFound (inside : InRectangle cols (2 * rows) p) :
    (cellOf? cols rows p).isSome = true ↔ p.x < cols ∧ p.y < 2 * rows := by
  have half : p.y < 2 * rows ↔ p.y / 2 < rows := by rw [div_lt_iff₀ two_pos, mul_comm]
  rw [half, ← floorBelow? inside.left, ← floorBelow? (div_nonneg inside.top two_pos.le), Option.isSome_iff_exists]
  constructor
  · rintro ⟨⟨col, row⟩, found⟩
    obtain ⟨⟨wide, column⟩, high, line⟩ := cellRat.mp found
    exact ⟨⟨col, wide, column⟩, row, high, line⟩
  · rintro ⟨⟨col, wide, column⟩, row, high, line⟩
    exact ⟨(col, row), cellRat.mpr ⟨⟨wide, column⟩, high, line⟩⟩

theorem cellMissed (inside : InRectangle cols (2 * rows) p) :
    cellOf? cols rows p = none ↔ p.x = cols ∨ p.y = 2 * rows := by
  rw [← Option.not_isSome_iff_eq_none, cellFound inside, not_and_or, not_lt, not_lt, inside.right.ge_iff_eq,
    inside.bottom.ge_iff_eq]

end cells

section steps

def Neighbours (c d : Nat × Nat) : Prop :=
  (c.1 ≤ d.1 + 1 ∧ d.1 ≤ c.1 + 1) ∧ c.2 ≤ d.2 + 1 ∧ d.2 ≤ c.2 + 1

structure Paced (first last : Point Rat) (n : Nat) : Prop where
  pos : 0 < n
  across : |last.x - first.x| ≤ n
  down : |(last.y - first.y) / 2| ≤ n

theorem sideLess {cols rows : Nat} {first last : Point Rat} (begins : InRectangle cols (2 * rows) first)
    (ends : InRectangle cols (2 * rows) last) :
    |last.x - first.x| ⊔ |(last.y - first.y) / 2| ≤ ((cols ⊔ rows : Nat) : Rat) := by
  rw [Nat.cast_max]
  have across : |last.x - first.x| ≤ cols :=
    abs_le.mpr ⟨by linarith [begins.right, ends.left], by linarith [begins.left, ends.right]⟩
  have down : |(last.y - first.y) / 2| ≤ rows :=
    abs_le.mpr ⟨by linarith [begins.bottom, ends.top], by linarith [begins.top, ends.bottom]⟩
  exact max_le_max across down

theorem stepsPaced {cols rows : Nat} {first last : Point Rat} (filled : 0 < cols ⊔ rows)
    (fits : cols ⊔ rows < Number.wordLimit) (begins : InRectangle cols (2 * rows) first)
    (ends : InRectangle cols (2 * rows) last) :
    Paced first last (stepCount first last) ∧ stepCount first last ≤ cols ⊔ rows := by
  have side := sideLess begins ends
  have count : stepCount first last =
      (Scalar.hold 1 (Number.wordLimit - 1) (|last.x - first.x| ⊔ |(last.y - first.y) / 2|).ceil).toNat := by
    simp only [stepCount, widthRat, heightRat, Scalar.absRat, Scalar.maxRat, Scalar.ceilInRat]
  have across := le_max_left |last.x - first.x| |(last.y - first.y) / 2|
  have down := le_max_right |last.x - first.x| |(last.y - first.y) / 2|
  generalize |last.x - first.x| ⊔ |(last.y - first.y) / 2| = length at side count across down
  have few : length.ceil ≤ (cols ⊔ rows : Nat) := Rat.ceil_le_iff.mpr (by rwa [Int.cast_natCast])
  have held : (stepCount first last : Int) = 1 ⊔ length.ceil := by
    rw [count, Scalar.hold]
    split_ifs <;> omega
  have enough : length ≤ stepCount first last := by
    have ceil : length.ceil ≤ (stepCount first last : Int) := held ▸ le_max_right _ _
    have steps := Rat.ceil_le_iff.mp ceil
    rwa [Int.cast_natCast] at steps
  exact ⟨⟨by omega, across.trans enough, down.trans enough⟩, by omega⟩

def sample (first last : Point Rat) (n i : Nat) : Point Rat := first.between last (i / n)

theorem samplesRat (first last : Point Rat) :
    samples first last = (List.range (stepCount first last + 1)).map (sample first last (stepCount first last)) := by
  have whole (n : Nat) : (Scalar.ofInt (n : Int) : Rat) = n := Int.cast_natCast n
  simp only [samples, whole]
  rfl

variable {first last : Point Rat} {n : Nat}

theorem sampleFirst (n : Nat) : sample first last n 0 = first := by
  rw [sample, Nat.cast_zero, zero_div, Point.betweenRat, mul_zero, mul_zero, zero_add, zero_add]

theorem sampleLast (pos : 0 < n) : sample first last n n = last := by
  have some : (n : Rat) ≠ 0 := Nat.cast_ne_zero.mpr pos.ne'
  rw [sample, div_self some, Point.betweenRat, mul_one, mul_one, sub_add_cancel, sub_add_cancel]

theorem sampleBetween {i : Nat} (pos : 0 < n) (upTo : i ≤ n) : OnSegment first last (sample first last n i) := by
  have some : (0 : Rat) < n := Nat.cast_pos.mpr pos
  exact ⟨i / n, by positivity, (div_le_one some).mpr (Nat.cast_le.mpr upTo), rfl⟩

def coordinate (a b : Rat) (n i : Nat) : Rat := (b - a) * (i / n) + a

theorem coordinateStep {a b : Rat} (pos : 0 < n) (slow : |b - a| ≤ n) (i : Nat) :
    |coordinate a b n (i + 1) - coordinate a b n i| ≤ 1 := by
  have some : (0 : Rat) < n := Nat.cast_pos.mpr pos
  have step : coordinate a b n (i + 1) - coordinate a b n i = (b - a) / n := by
    rw [coordinate, coordinate]
    push_cast
    ring
  rw [step, abs_div, Nat.abs_cast, div_le_one some]
  exact slow

theorem coordinateBelow {a b bound : Rat} {i j k : Nat} (after : i ≤ j) (before : j ≤ k)
    (first : coordinate a b n i < bound) (last : coordinate a b n k < bound) : coordinate a b n j < bound := by
  have lower : (i : Rat) / n ≤ j / n := by gcongr
  have upper : (j : Rat) / n ≤ k / n := by gcongr
  rw [coordinate] at first last ⊢
  rcases le_total 0 (b - a) with rising | falling
  · have next := mul_le_mul_of_nonneg_left upper rising
    linarith
  · have next := mul_le_mul_of_nonpos_left lower falling
    linarith

theorem floorWalk {a b : Rat} (pos : 0 < n) (slow : |b - a| ≤ n) (i : Nat) :
    (coordinate a b n (i + 1)).floor ≤ (coordinate a b n i).floor + 1 ∧
      (coordinate a b n i).floor ≤ (coordinate a b n (i + 1)).floor + 1 := by
  have step := abs_le.mp (coordinateStep pos slow i)
  exact ⟨Number.floorStep (by linarith), Number.floorStep (by linarith)⟩

/- A walk on the whole numbers, one at a time at most, comes by every number between two that it comes by. -/
theorem walkReaches {g : Nat → Int} (walk : ∀ i, g (i + 1) ≤ g i + 1 ∧ g i ≤ g (i + 1) + 1) {i k : Nat}
    (order : i ≤ k) {v : Int} (between : g i ≤ v ∧ v ≤ g k ∨ g k ≤ v ∧ v ≤ g i) : ∃ j, i ≤ j ∧ j ≤ k ∧ g j = v := by
  induction k, order using Nat.le_induction with
  | base => exact ⟨i, le_rfl, le_rfl, by omega⟩
  | succ k order ih =>
    have step := walk k
    by_cases earlier : g i ≤ v ∧ v ≤ g k ∨ g k ≤ v ∧ v ≤ g i
    · obtain ⟨j, lower, upper, here⟩ := ih earlier
      exact ⟨j, lower, by omega, here⟩
    · exact ⟨k + 1, by omega, le_rfl, by omega⟩

theorem convexRange {has : Nat → Prop} (convex : ∀ i j k, i ≤ j → j ≤ k → has i → has k → has j) (n : Nat) :
    ∃ low high, high ≤ n ∧ ∀ i < n, has i ↔ low ≤ i ∧ i < high := by
  induction n with
  | zero => exact ⟨0, 0, le_rfl, nofun⟩
  | succ n ih =>
    obtain ⟨low, high, within, exact⟩ := ih
    by_cases last : has n
    · by_cases more : ∃ i < n, has i
      · -- The range that was there goes on to the new number.
        obtain ⟨i, below, here⟩ := more
        have begun := (exact i below).mp here
        have first : has low := (exact low (by omega)).mpr ⟨le_rfl, by omega⟩
        refine ⟨low, n + 1, le_rfl, fun j upTo => ⟨fun found => ?_, fun inside => ?_⟩⟩
        · by_cases end' : j = n
          · omega
          · have begins := (exact j (by omega)).mp found
            omega
        · exact convex low j n inside.1 (by omega) first last
      · refine ⟨n, n + 1, le_rfl, fun j upTo => ⟨fun found => ?_, fun inside => ?_⟩⟩
        · by_contra outside
          exact more ⟨j, by omega, found⟩
        · obtain rfl : j = n := by omega
          exact last
    · refine ⟨low, high, by omega, fun j upTo => ?_⟩
      by_cases new : j = n
      · subst new
        exact iff_of_false last (by omega)
      · exact exact j (by omega)

variable {cols rows : Nat} {start finish : Point Rat}

structure Walk (cols rows : Nat) (start finish first last : Point Rat) (n : Nat) : Prop
    extends Paced first last n where
  clipped : Clipped cols (2 * rows) start finish first last

namespace Walk
variable (walk : Walk cols rows start finish first last n)
include walk

theorem onSegment {i : Nat} (upTo : i ≤ n) : OnSegment start finish (sample first last n i) ∧
    InRectangle cols (2 * rows) (sample first last n i) :=
  (walk.clipped.exact _).mp (sampleBetween walk.pos upTo)

theorem found {i : Nat} (upTo : i ≤ n) : (cellOf? cols rows (sample first last n i)).isSome = true ↔
    coordinate first.x last.x n i < cols ∧ coordinate first.y last.y n i < 2 * rows :=
  cellFound (walk.onSegment upTo).2

theorem foundBetween {i j k : Nat} (after : i ≤ j) (before : j ≤ k) (upTo : k ≤ n)
    (first' : (cellOf? cols rows (sample first last n i)).isSome = true)
    (last' : (cellOf? cols rows (sample first last n k)).isSome = true) :
    (cellOf? cols rows (sample first last n j)).isSome = true := by
  rw [walk.found (by omega)] at first' last' ⊢
  exact ⟨coordinateBelow after before first'.1 last'.1, coordinateBelow after before first'.2 last'.2⟩

omit walk in
theorem columnWalk (paced : Paced first last n) (i : Nat) :
    (sample first last n (i + 1)).x.floor ≤ (sample first last n i).x.floor + 1 ∧
      (sample first last n i).x.floor ≤ (sample first last n (i + 1)).x.floor + 1 :=
  floorWalk paced.pos paced.across i

omit walk in
theorem rowWalk (paced : Paced first last n) (i : Nat) :
    ((sample first last n (i + 1)).y / 2).floor ≤ ((sample first last n i).y / 2).floor + 1 ∧
      ((sample first last n i).y / 2).floor ≤ ((sample first last n (i + 1)).y / 2).floor + 1 := by
  have half (i : Nat) : (sample first last n i).y / 2 = coordinate (first.y / 2) (last.y / 2) n i := by
    rw [coordinate, sample, Point.betweenRat]
    ring
  have slow : |last.y / 2 - first.y / 2| ≤ n := by
    rw [← sub_div]
    exact paced.down
  rw [half, half]
  exact floorWalk paced.pos slow i

theorem neighbours {i : Nat} {c d : Nat × Nat} (here : cellOf? cols rows (sample first last n i) = some c)
    (next : cellOf? cols rows (sample first last n (i + 1)) = some d) : Neighbours c d := by
  obtain ⟨⟨_, column⟩, _, row⟩ := cellRat.mp here
  obtain ⟨⟨_, column'⟩, _, row'⟩ := cellRat.mp next
  have across := columnWalk walk.toPaced i
  have down := rowWalk walk.toPaced i
  rw [column, column'] at across
  rw [row, row'] at down
  exact ⟨by omega, by omega⟩

theorem skipsNone {g : Point Rat → Int}
    (steps : ∀ i, g (sample first last n (i + 1)) ≤ g (sample first last n i) + 1 ∧
      g (sample first last n i) ≤ g (sample first last n (i + 1)) + 1)
    {i k : Nat} (upTo : i ≤ n) (upTo' : k ≤ n) {c d : Nat × Nat}
    (here : cellOf? cols rows (sample first last n i) = some c)
    (there : cellOf? cols rows (sample first last n k) = some d) {v : Int}
    (lower : g (sample first last n i) ≤ v) (upper : v ≤ g (sample first last n k)) :
    ∃ j ≤ n, ∃ place, cellOf? cols rows (sample first last n j) = some place ∧ g (sample first last n j) = v := by
  have found := Option.isSome_of_eq_some here
  have found' := Option.isSome_of_eq_some there
  rcases le_total i k with order | order
  · obtain ⟨j, after, before, value⟩ := walkReaches steps order (.inl ⟨lower, upper⟩)
    obtain ⟨place, cell⟩ := Option.isSome_iff_exists.mp (walk.foundBetween after before upTo' found found')
    exact ⟨j, by omega, place, cell, value⟩
  · obtain ⟨j, after, before, value⟩ := walkReaches steps order (.inr ⟨lower, upper⟩)
    obtain ⟨place, cell⟩ := Option.isSome_iff_exists.mp (walk.foundBetween after before upTo found' found)
    exact ⟨j, by omega, place, cell, value⟩

variable {i k : Nat} {c d : Nat × Nat} (upTo : i ≤ n) (upTo' : k ≤ n)
  (here : cellOf? cols rows (sample first last n i) = some c)
  (there : cellOf? cols rows (sample first last n k) = some d)
include upTo upTo' here there

theorem everyColumn {col : Nat} (lower : c.1 ≤ col) (upper : col ≤ d.1) :
    ∃ j ≤ n, ∃ row, cellOf? cols rows (sample first last n j) = some (col, row) := by
  obtain ⟨⟨_, column⟩, _⟩ := cellRat.mp here
  obtain ⟨⟨_, column'⟩, _⟩ := cellRat.mp there
  obtain ⟨j, within, place, found, same⟩ := walk.skipsNone (g := fun p => p.x.floor) (v := col)
    (columnWalk walk.toPaced) upTo upTo' here there (by omega) (by omega)
  obtain ⟨⟨_, value⟩, _⟩ := cellRat.mp found
  obtain rfl : place.1 = col := by omega
  exact ⟨j, within, place.2, found⟩

theorem everyRow {row : Nat} (lower : c.2 ≤ row) (upper : row ≤ d.2) :
    ∃ j ≤ n, ∃ col, cellOf? cols rows (sample first last n j) = some (col, row) := by
  obtain ⟨_, _, line⟩ := cellRat.mp here
  obtain ⟨_, _, line'⟩ := cellRat.mp there
  obtain ⟨j, within, place, found, same⟩ := walk.skipsNone (g := fun p => (p.y / 2).floor) (v := row)
    (rowWalk walk.toPaced) upTo upTo' here there (by omega) (by omega)
  obtain ⟨_, _, value⟩ := cellRat.mp found
  obtain rfl : place.2 = row := by omega
  exact ⟨j, within, place.1, found⟩

end Walk

end steps

structure Sampled (cols rows : Nat) (start finish first last : Point Rat) : Prop where
  few : (samples first last).length ≤ cols ⊔ rows + 1
  begins : (samples first last).head? = some first
  ends : (samples first last).getLast? = some last
  onSegment : ∀ p ∈ samples first last, OnSegment start finish p
  missed : ∀ p ∈ samples first last, cellOf? cols rows p = none ↔ p.x = cols ∨ p.y = 2 * rows
  consecutive : ∃ low high : Nat, ∀ i p, (samples first last)[i]? = some p →
    ((cellOf? cols rows p).isSome = true ↔ low ≤ i ∧ i < high)
  neighbours : ∀ i p q, (samples first last)[i]? = some p → (samples first last)[i + 1]? = some q →
    ∀ c d, cellOf? cols rows p = some c → cellOf? cols rows q = some d → Neighbours c d
  painted : cells cols rows start finish = (samples first last).filterMap (cellOf? cols rows)
  covered : ∀ place ∈ cells cols rows start finish, place.1 < cols ∧ place.2 < rows ∧
    ∃ p, OnSegment start finish p ∧ Holds place p
  everyColumn : ∀ c ∈ cells cols rows start finish, ∀ d ∈ cells cols rows start finish,
    ∀ col, c.1 ≤ col → col ≤ d.1 → ∃ row, (col, row) ∈ cells cols rows start finish
  everyRow : ∀ c ∈ cells cols rows start finish, ∀ d ∈ cells cols rows start finish,
    ∀ row, c.2 ≤ row → row ≤ d.2 → ∃ col, (col, row) ∈ cells cols rows start finish

theorem cellsSampled {cols rows : Nat} {start finish first last : Point Rat}
    (seen : clip? (pixelSize cols rows).1 (pixelSize cols rows).2 start finish = some (first, last)) :
    cells cols rows start finish = (samples first last).filterMap (cellOf? cols rows) := by
  simp only [cells, seen]

theorem getSample {first last p : Point Rat} {i : Nat} :
    (samples first last)[i]? = some p ↔
      i ≤ stepCount first last ∧ sample first last (stepCount first last) i = p := by
  rw [samplesRat, List.getElem?_map, Option.map_eq_some_iff]
  simp only [List.getElem?_eq_some_iff, List.length_range, List.getElem_range, Order.lt_add_one_iff]
  constructor
  · rintro ⟨j, ⟨upTo, rfl⟩, same⟩
    exact ⟨upTo, same⟩
  · rintro ⟨upTo, same⟩
    exact ⟨i, ⟨upTo, rfl⟩, same⟩

theorem memSamples {first last p : Point Rat} :
    p ∈ samples first last ↔ ∃ i ≤ stepCount first last, sample first last (stepCount first last) i = p := by
  simp only [List.mem_iff_getElem?, getSample]

theorem strokesLeaveNoGaps {cols rows : Nat} (filled : 0 < cols ⊔ rows) (fits : cols ⊔ rows < Number.wordLimit)
    {start finish first last : Point Rat}
    (seen : clip? (pixelSize cols rows).1 (pixelSize cols rows).2 start finish = some (first, last)) :
    Sampled cols rows start finish first last := by
  have painted := cellsSampled seen
  rw [pixelSizeRat] at seen
  have clipped := clipFound seen
  obtain ⟨paced, few⟩ := stepsPaced filled fits clipped.begins.2 clipped.ends.2
  have walk : Walk cols rows start finish first last (stepCount first last) := ⟨paced, clipped⟩
  have memCells (place : Nat × Nat) : place ∈ cells cols rows start finish ↔
      ∃ i ≤ stepCount first last, cellOf? cols rows (sample first last (stepCount first last) i) = some place := by
    simp only [painted, List.mem_filterMap, memSamples, exists_exists_and_eq_and]
  refine ⟨?few, ?begins, ?ends, ?onSegment, ?missed, ?consecutive, ?neighbours, painted, ?covered, ?everyColumn,
    ?everyRow⟩
  case few =>
    rw [samplesRat, List.length_map, List.length_range]
    omega
  case begins =>
    rw [List.head?_eq_getElem?, getSample]
    exact ⟨Nat.zero_le _, sampleFirst _⟩
  case ends =>
    have length : (samples first last).length - 1 = stepCount first last := by
      rw [samplesRat, List.length_map, List.length_range, Nat.add_sub_cancel]
    rw [List.getLast?_eq_getElem?, length, getSample]
    exact ⟨le_rfl, sampleLast paced.pos⟩
  case onSegment =>
    intro p mem
    obtain ⟨i, upTo, rfl⟩ := memSamples.mp mem
    exact (walk.onSegment upTo).1
  case missed =>
    intro p mem
    obtain ⟨i, upTo, rfl⟩ := memSamples.mp mem
    exact cellMissed (walk.onSegment upTo).2
  case consecutive =>
    have convex (i j k : Nat) (after : i ≤ j) (before : j ≤ k)
        (here : i ≤ stepCount first last ∧
          (cellOf? cols rows (sample first last (stepCount first last) i)).isSome = true)
        (there : k ≤ stepCount first last ∧
          (cellOf? cols rows (sample first last (stepCount first last) k)).isSome = true) :=
      And.intro (before.trans there.1) (walk.foundBetween after before there.1 here.2 there.2)
    obtain ⟨low, high, _, exact⟩ := convexRange convex (stepCount first last + 1)
    refine ⟨low, high, fun i p at' => ?_⟩
    obtain ⟨upTo, rfl⟩ := getSample.mp at'
    rw [← exact i (by omega), and_iff_right upTo]
  case neighbours =>
    intro i p q here next c d found found'
    obtain ⟨_, rfl⟩ := getSample.mp here
    obtain ⟨_, rfl⟩ := getSample.mp next
    exact walk.neighbours found found'
  case covered =>
    intro place mem
    obtain ⟨i, upTo, found⟩ := (memCells place).mp mem
    obtain ⟨wide, high, holds⟩ := cellHolds found
    exact ⟨wide, high, _, (walk.onSegment upTo).1, holds⟩
  case everyColumn =>
    intro c memC d memD col lower upper
    obtain ⟨i, upTo, here⟩ := (memCells c).mp memC
    obtain ⟨k, upTo', there⟩ := (memCells d).mp memD
    obtain ⟨j, within, row, found⟩ := walk.everyColumn upTo upTo' here there lower upper
    exact ⟨row, (memCells _).mpr ⟨j, within, found⟩⟩
  case everyRow =>
    intro c memC d memD row lower upper
    obtain ⟨i, upTo, here⟩ := (memCells c).mp memC
    obtain ⟨k, upTo', there⟩ := (memCells d).mp memD
    obtain ⟨j, within, col, found⟩ := walk.everyRow upTo upTo' here there lower upper
    exact ⟨col, (memCells _).mpr ⟨j, within, found⟩⟩

theorem strokesLeaveNoGapsToCorner :
    (0 < 4 ⊔ 3 ∧ 4 ⊔ 3 < Number.wordLimit ∧
      clip? (pixelSize 4 3).1 (pixelSize 4 3).2 (⟨-1, 1⟩ : Point Rat) ⟨9, 11⟩ = some (⟨0, 2⟩, ⟨4, 6⟩)) ∧
      Sampled 4 3 ⟨-1, 1⟩ ⟨9, 11⟩ ⟨0, 2⟩ ⟨4, 6⟩ ∧
      cells 4 3 (⟨-1, 1⟩ : Point Rat) ⟨9, 11⟩ = [(0, 1), (1, 1), (2, 2), (3, 2)] := by
  have seen : clip? (pixelSize 4 3).1 (pixelSize 4 3).2 (⟨-1, 1⟩ : Point Rat) ⟨9, 11⟩ = some (⟨0, 2⟩, ⟨4, 6⟩) := by
    decide +kernel
  exact ⟨⟨by decide, by decide, seen⟩, strokesLeaveNoGaps (by decide) (by decide) seen, by decide +kernel⟩

end Raster
end TurtleBoard
