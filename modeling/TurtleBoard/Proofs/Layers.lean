import TurtleBoard.Proofs.ByteOrder
import TurtleBoard.Proofs.Cells
import TurtleBoard.Proofs.OrderedMap

/-! The layers of a composed picture. A cell shows the label of the last bubble over it; if there is none, the sprite of
the last actor in it; and otherwise the background. What lies beyond an edge is cut. The picture is one of the maps
alone: calls about different actors, bubbles and lines may come in any order. -/
namespace TurtleBoard

namespace Number

theorem truncateFloor (r : Rat) : r.floor ≤ truncate r ∧ truncate r ≤ r.floor + 1 := by
  have quotient := Int.tdiv_eq_ediv (a := r.num) (b := r.den)
  have sign : (r.den : Int).sign = 1 := Int.sign_eq_one_of_pos (Int.natCast_pos.mpr r.den_pos)
  rw [truncate, Rat.floor_def, quotient, sign]
  split <;> omega

theorem floorHalf (r : Rat) : 2 * (r / 2).floor ≤ r.floor ∧ r.floor < 2 * (r / 2).floor + 2 := by
  obtain ⟨lower, upper⟩ := floorEq.mp (rfl : (r / 2).floor = (r / 2).floor)
  constructor
  · exact Rat.le_floor_iff.mpr (by push_cast; linarith)
  · exact Rat.floor_lt_iff.mpr (by push_cast; linarith)

end Number

namespace Raster

def spot? (p : Point Float) : Option (Int × Int) :=
  match Number.value? (p.x / cellWidth), Number.value? (p.y / cellHeight) with
  | some x, some y => some (x.floor, y.floor)
  | _, _ => none

theorem columnValue {x : Float} {r : Rat} (value : Number.value? x = some r) :
    Number.value? (x / cellWidth) = some r := (Number.sameUnpack (Number.divOne x)).2.trans value

theorem rowValue {y : Float} {r : Rat} (value : Number.value? y = some r) :
    ∃ q, Number.value? (y / cellHeight) = some q ∧ q.floor = if r = -Number.least then 0 else (r / 2).floor :=
  Number.halfValue value

theorem spotExact {p : Point Float} {x y : Rat} (across : Number.value? p.x = some x)
    (down : Number.value? p.y = some y) :
    spot? p = some (x.floor, if y = -Number.least then 0 else (y / 2).floor) := by
  have same := columnValue across
  obtain ⟨q, halved, floor⟩ := rowValue down
  simp only [spot?, same, halved, floor]

def Near (c : Float) : Prop :=
  ∃ r ∈ Number.value? c, -2147483648 ≤ Number.truncate r ∧ Number.truncate r ≤ 2147483647

instance (c : Float) : Decidable (Near c) := inferInstanceAs (Decidable (∃ r ∈ Number.value? c, _))

structure NearPoint (p : Point Float) : Prop where
  x : Near p.x
  y : Near p.y

instance (p : Point Float) : Decidable (NearPoint p) :=
  decidable_of_iff (Near p.x ∧ Near p.y) ⟨fun near => ⟨near.1, near.2⟩, fun near => ⟨near.x, near.y⟩⟩

theorem floorHeld {t : Float} {r : Rat} (value : Number.value? t = some r)
    (lower : Number.minWord ≤ r.floor) (upper : r.floor ≤ Number.maxWord) :
    Scalar.floorIn Number.minWord Number.maxWord t = r.floor := by
  have same : Scalar.value? t = some r := value
  rw [Scalar.floorIn, Scalar.roundedIn, same]
  simp only [Scalar.hold]
  rw [if_neg (Int.not_lt.mpr lower), if_neg (Int.not_lt.mpr upper)]

theorem nearSpot {p : Point Float} (near : NearPoint p) :
    spot? p = some (Scalar.floorIn Number.minWord Number.maxWord (p.x / cellWidth),
      Scalar.floorIn Number.minWord Number.maxWord (p.y / cellHeight)) := by
  obtain ⟨⟨x, across, left, right⟩, y, down, above, below⟩ := near
  have wordLow : Number.minWord = -9223372036854775808 := rfl
  have wordHigh : Number.maxWord = 9223372036854775807 := rfl
  have columns := Number.truncateFloor x
  have rows := Number.truncateFloor y
  have same := columnValue across
  obtain ⟨q, halved, floor⟩ := rowValue down
  have within : Number.minWord ≤ q.floor ∧ q.floor ≤ Number.maxWord := by
    rw [floor]
    split
    · omega
    · have halves := Number.floorHalf y
      omega
  simp only [spot?, same, halved]
  rw [floorHeld same (by omega) (by omega), floorHeld halved within.1 within.2]

theorem cellSpot {p : Point Float} (near : NearPoint p) {cols rows col row : Nat} (wide : col < cols)
    (high : row < rows) : cellOf? cols rows p = some (col, row) ↔ spot? p = some ((col : Int), (row : Int)) := by
  obtain ⟨⟨x, across, _⟩, y, down, _⟩ := near
  have same := columnValue across
  obtain ⟨q, halved, _⟩ := rowValue down
  have column : index? cols (p.x / cellWidth) = some col ↔ x.floor = col := by
    rw [indexSome, Number.numberOfValue same, same]
    simp [wide]
  have line : index? rows (p.y / cellHeight) = some row ↔ q.floor = row := by
    rw [indexSome, Number.numberOfValue halved, halved]
    simp [high]
  simp only [spot?, same, halved, Option.some.injEq, Prod.mk.injEq, ← column, ← line, cellOf?]
  cases index? cols (p.x / cellWidth) <;> cases index? rows (p.y / cellHeight) <;> simp

end Raster

namespace Canvas

/- Each item paints a place or leaves it; the last one that paints it is seen. -/
theorem foldlPaint {β : Type} {f : Grid → β → Grid} {paint : β → Option Cell} {col row : Nat}
    (keeps : ∀ g item, (f g item).cols = g.cols ∧ (f g item).rows = g.rows)
    (paints : ∀ (g : Grid) item,
      col < g.cols → row < g.rows → (f g item).get col row = (paint item).getD (g.get col row))
    (items : List β) {g : Grid} (wide : col < g.cols) (high : row < g.rows) :
    (items.foldl f g).get col row = ((items.filterMap paint).getLast?).getD (g.get col row) := by
  induction items generalizing g with
  | nil => rfl
  | cons item items ih =>
    obtain ⟨cols, rows⟩ := keeps g item
    rw [List.foldl_cons, ih (cols ▸ wide) (rows ▸ high), paints g item wide high, List.filterMap_cons]
    cases paint item with
    | none => rfl
    | some cell => rw [List.getLast?_cons, Option.getD_some, Option.getD_some]

def spriteAt? (c : Canvas) (col row : Nat) (sprite : Sprite) : Option Cell :=
  sprite.placement.bind fun placement =>
    if Raster.cellOf? c.cols c.rows placement.position = some (col, row) then some (c.spriteCell sprite placement)
    else none

theorem getPutSprite (c : Canvas) (sprite : Sprite) {g : Grid} {col row : Nat} (wide : col < g.cols)
    (high : row < g.rows) : (c.putSprite g sprite).get col row = (c.spriteAt? col row sprite).getD (g.get col row) := by
  rw [putSprite, spriteAt?]
  cases sprite.placement with
  | none => rfl
  | some placement =>
    simp only [Option.bind_some]
    cases found : Raster.cellOf? c.cols c.rows placement.position with
    | none => rfl
    | some place =>
      simp only [Grid.getSet g _ _ _ wide high, Option.some.injEq, Prod.ext_iff]
      split <;> rfl

def labelAt? (line : Nat) (column : Int) (chars : List Char) (col row : Nat) : Option Cell :=
  if line = row ∧ column ≤ col then (chars[(col - column).toNat]?).map fun char => ⟨char, bubbleStyle⟩ else none

theorem getPutLabel (line : Nat) (column : Int) (chars : List Char) {g : Grid} {col row : Nat} (wide : col < g.cols)
    (high : row < g.rows) :
    (putLabel line column chars g).get col row = (labelAt? line column chars col row).getD (g.get col row) := by
  induction chars generalizing column g with
  | nil =>
    simp only [putLabel, labelAt?, List.getElem?_nil, Option.map_none, ite_self, Option.getD_none]
  | cons char chars ih =>
    let after := if 0 ≤ column ∧ column < g.cols then g.set column.toNat line ⟨char, bubbleStyle⟩ else g
    have size : after.cols = g.cols ∧ after.rows = g.rows := by
      simp only [after]
      split <;> simp
    have first : after.get col row = if line = row ∧ column = col then ⟨char, bubbleStyle⟩ else g.get col row := by
      simp only [after]
      split
      · rw [Grid.getSet g _ _ _ wide high]
        exact if_congr (by omega) rfl rfl
      · rw [if_neg (by omega)]
    change (putLabel line (column + 1) chars after).get col row = _
    -- The rest of the label begins in the next column, so it leaves the first character alone.
    rw [ih (column + 1) (size.1 ▸ wide) (size.2 ▸ high), first, labelAt?, labelAt?]
    by_cases here : line = row ∧ column = col
    · rw [if_neg (by omega), if_pos here, if_pos (by omega), ← here.2, Int.sub_self]
      rfl
    · rw [if_neg here]
      by_cases later : line = row ∧ column + 1 ≤ col
      · have next : ((col : Int) - column).toNat = ((col : Int) - (column + 1)).toNat + 1 := by omega
        rw [if_pos later, if_pos (by omega), next, List.getElem?_cons_succ]
      · rw [if_neg later, if_neg (by omega)]

def bubbleAt? (col row : Nat) (bubble : Point Float × String) : Option Cell :=
  if Scalar.floorIn Number.minWord Number.maxWord (bubble.1.y / Raster.cellHeight) = row then
    labelAt? row (labelStart bubble.1.x (label bubble.2).length) (label bubble.2) col row
  else none

theorem getPutBubble (bubble : Point Float × String) {g : Grid} {col row : Nat} (wide : col < g.cols)
    (high : row < g.rows) : (putBubble g bubble).get col row = (bubbleAt? col row bubble).getD (g.get col row) := by
  rw [bubbleAt?, putBubble]
  generalize Scalar.floorIn Number.minWord Number.maxWord (bubble.1.y / Raster.cellHeight) = line
  split
  · rw [if_neg (by omega)]
    rfl
  · rw [getPutLabel _ _ _ wide high]
    split
    · rename_i same
      subst same
      rfl
    · rw [labelAt?, if_neg (by omega)]

def Labels (bubble : Point Float × String) (col row : Nat) (char : Char) : Prop :=
  ∃ (middle : Int) (i : Nat), Raster.spot? bubble.1 = some (middle, (row : Int)) ∧
    (col : Int) = middle - ((label bubble.2).length / 2 : Nat) + i ∧ (label bubble.2)[i]? = some char

theorem bubbleAtIff {bubble : Point Float × String} (near : Raster.NearPoint bubble.1) {col row : Nat} {cell : Cell} :
    bubbleAt? col row bubble = some cell ↔ ∃ char, Labels bubble col row char ∧ cell = ⟨char, bubbleStyle⟩ := by
  have spot := Raster.nearSpot near
  rw [bubbleAt?, labelAt?, labelStart]
  simp only [Labels, spot, Option.some.injEq, Prod.mk.injEq]
  generalize Scalar.floorIn Number.minWord Number.maxWord (bubble.1.y / Raster.cellHeight) = line
  generalize Scalar.floorIn Number.minWord Number.maxWord (bubble.1.x / Raster.cellWidth) = middle
  constructor
  · intro found
    split at found
    · rename_i same
      split at found
      · obtain ⟨char, listed, rfl⟩ := Option.map_eq_some_iff.mp found
        exact ⟨char, ⟨middle, _, ⟨rfl, same⟩, by omega, listed⟩, rfl⟩
      · contradiction
    · contradiction
  · rintro ⟨char, ⟨_, i, ⟨rfl, same⟩, place, listed⟩, rfl⟩
    have index : ((col : Int) - (middle - (label bubble.2).length / 2)).toNat = i := by omega
    rw [if_pos same, if_pos ⟨trivial, by omega⟩, index, listed]
    rfl

def Stands (sprite : Sprite) (placement : Placement) (col row : Nat) : Prop :=
  sprite.placement = some placement ∧ Raster.spot? placement.position = some ((col : Int), (row : Int))

theorem spriteAtIff {c : Canvas} {sprite : Sprite}
    (near : ∀ placement, sprite.placement = some placement → Raster.NearPoint placement.position) {col row : Nat}
    (wide : col < c.cols) (high : row < c.rows) {cell : Cell} :
    c.spriteAt? col row sprite = some cell ↔
      ∃ placement, Stands sprite placement col row ∧ cell = c.spriteCell sprite placement := by
  rw [spriteAt?, Option.bind_eq_some_iff]
  constructor
  · rintro ⟨placement, placed, found⟩
    split at found
    · rename_i inside
      exact ⟨placement, ⟨placed, (Raster.cellSpot (near placement placed) wide high).mp inside⟩,
        (Option.some.inj found).symm⟩
    · contradiction
  · rintro ⟨placement, ⟨placed, spot⟩, rfl⟩
    exact ⟨placement, placed, if_pos ((Raster.cellSpot (near placement placed) wide high).mpr spot)⟩

structure Near (c : Canvas) : Prop where
  sprites : ∀ id sprite placement, c.sprites.get? id = some sprite → sprite.placement = some placement →
    Raster.NearPoint placement.position
  bubbles : ∀ number bubble, c.bubbles.get? number = some bubble → Raster.NearPoint bubble.1

inductive Shows (c : Canvas) (col row : Nat) : Cell → Prop where
  | bubble {number : Nat} {bubble : Point Float × String} {char : Char} (here : c.bubbles.get? number = some bubble)
      (covers : Labels bubble col row char)
      (last : ∀ other b ch, c.bubbles.get? other = some b → Labels b col row ch → ¬ number < other) :
      Shows c col row ⟨char, { fg := some (.named .black), bg := some (.named .white) }⟩
  | sprite {id : String} {sprite : Sprite} {placement : Placement}
      (bare : ∀ number b ch, c.bubbles.get? number = some b → ¬ Labels b col row ch)
      (here : c.sprites.get? id = some sprite) (stands : Stands sprite placement col row)
      (last : ∀ other s p, c.sprites.get? other = some s → Stands s p col row →
        ¬ Utf8.bytes id < Utf8.bytes other) :
      Shows c col row (c.spriteCell sprite placement)
  | background (bare : ∀ number b ch, c.bubbles.get? number = some b → ¬ Labels b col row ch)
      (free : ∀ id s p, c.sprites.get? id = some s → ¬ Stands s p col row) :
      Shows c col row (c.background.get col row)

theorem getCompose (c : Canvas) {col row : Nat} (wide : col < c.cols) (high : row < c.rows) :
    c.compose.get col row = ((c.bubbles.values.filterMap (bubbleAt? col row)).getLast?).getD
      (((c.sprites.values.filterMap (c.spriteAt? col row)).getLast?).getD (c.background.get col row)) := by
  -- The bubbles are painted on what the sprites have left, and their order is that of the keys.
  obtain ⟨cols, rows⟩ := foldlSize c.putSprite c.putSpriteSize c.sprites.values c.background
  have bubbles := foldlPaint putBubbleSize (fun _ bubble wide high => getPutBubble bubble wide high) c.bubbles.values
    (Nat.lt_of_lt_of_eq wide cols.symm) (Nat.lt_of_lt_of_eq high rows.symm)
  have sprites := foldlPaint c.putSpriteSize (fun _ sprite wide high => c.getPutSprite sprite wide high)
    c.sprites.values wide high
  rw [compose, bubbles, sprites]

section
variable {c : Canvas} (near : c.Near) {col row : Nat}
include near

theorem bubbleSeen {cell : Cell} :
    (c.bubbles.values.filterMap (bubbleAt? col row)).getLast? = some cell ↔
      ∃ number bubble char, c.bubbles.get? number = some bubble ∧ Labels bubble col row char ∧
        (∀ other b ch, c.bubbles.get? other = some b → Labels b col row ch → ¬ number < other) ∧
          cell = ⟨char, bubbleStyle⟩ := by
  rw [OrderedMap.lastValueIff]
  constructor
  · rintro ⟨number, bubble, here, own, last⟩
    obtain ⟨char, covers, rfl⟩ := (bubbleAtIff (near.bubbles number bubble here)).mp own
    refine ⟨number, bubble, char, here, covers, fun other b ch there labels => ?_, rfl⟩
    have painted := (bubbleAtIff (near.bubbles other b there)).mpr ⟨ch, labels, rfl⟩
    exact last other b there (Option.isSome_of_eq_some painted)
  · rintro ⟨number, bubble, char, here, covers, last, rfl⟩
    refine ⟨number, bubble, here, (bubbleAtIff (near.bubbles number bubble here)).mpr ⟨char, covers, rfl⟩, ?_⟩
    intro other b there paints
    obtain ⟨cell, painted⟩ := Option.isSome_iff_exists.mp paints
    obtain ⟨ch, labels, _⟩ := (bubbleAtIff (near.bubbles other b there)).mp painted
    exact last other b ch there labels

theorem bubbleUnseen : (c.bubbles.values.filterMap (bubbleAt? col row)).getLast? = none ↔
    ∀ number b ch, c.bubbles.get? number = some b → ¬ Labels b col row ch := by
  rw [OrderedMap.lastNone]
  constructor
  · intro nothing number b ch here labels
    cases (nothing number b here).symm.trans ((bubbleAtIff (near.bubbles number b here)).mpr ⟨ch, labels, rfl⟩)
  · intro bare number b here
    refine Option.eq_none_iff_forall_ne_some.mpr fun cell painted => ?_
    obtain ⟨ch, labels, _⟩ := (bubbleAtIff (near.bubbles number b here)).mp painted
    exact bare number b ch here labels

variable (wide : col < c.cols) (high : row < c.rows)
include wide high

theorem spriteSeen {cell : Cell} :
    (c.sprites.values.filterMap (c.spriteAt? col row)).getLast? = some cell ↔
      ∃ id sprite placement, c.sprites.get? id = some sprite ∧ Stands sprite placement col row ∧
        (∀ other s p, c.sprites.get? other = some s → Stands s p col row → ¬ Utf8.bytes id < Utf8.bytes other) ∧
          cell = c.spriteCell sprite placement := by
  rw [OrderedMap.lastValueIff]
  have paintsIff {id : String} {sprite : Sprite} (here : c.sprites.get? id = some sprite) (cell : Cell) :
      c.spriteAt? col row sprite = some cell ↔ _ := spriteAtIff (near.sprites id sprite · here) wide high
  constructor
  · rintro ⟨id, sprite, here, own, last⟩
    obtain ⟨placement, stands, rfl⟩ := (paintsIff here cell).mp own
    refine ⟨id, sprite, placement, here, stands, fun other s p there standing => ?_, rfl⟩
    rw [Utf8.lessBytes]
    exact last other s there (Option.isSome_of_eq_some ((paintsIff there _).mpr ⟨p, standing, rfl⟩))
  · rintro ⟨id, sprite, placement, here, stands, last, rfl⟩
    refine ⟨id, sprite, here, (paintsIff here _).mpr ⟨placement, stands, rfl⟩, ?_⟩
    intro other s there paints
    obtain ⟨cell, painted⟩ := Option.isSome_iff_exists.mp paints
    obtain ⟨p, standing, _⟩ := (paintsIff there cell).mp painted
    rw [← Utf8.lessBytes]
    exact last other s p there standing

theorem spriteUnseen : (c.sprites.values.filterMap (c.spriteAt? col row)).getLast? = none ↔
    ∀ id s p, c.sprites.get? id = some s → ¬ Stands s p col row := by
  rw [OrderedMap.lastNone]
  constructor
  · intro nothing id s p here stands
    cases (nothing id s here).symm.trans
      ((spriteAtIff (near.sprites id s · here) wide high).mpr ⟨p, stands, rfl⟩)
  · intro free id s here
    refine Option.eq_none_iff_forall_ne_some.mpr fun cell painted => ?_
    obtain ⟨p, stands, _⟩ := (spriteAtIff (near.sprites id s · here) wide high).mp painted
    exact free id s p here stands

theorem composeShows {cell : Cell} : c.compose.get col row = cell ↔ c.Shows col row cell := by
  rw [getCompose c wide high]
  constructor
  · rintro rfl
    cases bubbles : (c.bubbles.values.filterMap (bubbleAt? col row)).getLast? with
    | some cell =>
      obtain ⟨number, bubble, char, here, covers, last, rfl⟩ := (bubbleSeen near).mp bubbles
      exact .bubble here covers last
    | none =>
      have bare := (bubbleUnseen near).mp bubbles
      cases sprites : (c.sprites.values.filterMap (c.spriteAt? col row)).getLast? with
      | some cell =>
        obtain ⟨id, sprite, placement, here, stands, last, rfl⟩ := (spriteSeen near wide high).mp sprites
        exact .sprite bare here stands last
      | none => exact .background bare ((spriteUnseen near wide high).mp sprites)
  · intro shows
    cases shows with
    | bubble here covers last =>
      rw [(bubbleSeen near).mpr ⟨_, _, _, here, covers, last, rfl⟩]
      rfl
    | sprite bare here stands last =>
      rw [(bubbleUnseen near).mpr bare, (spriteSeen near wide high).mpr ⟨_, _, _, here, stands, last, rfl⟩]
      rfl
    | background bare free =>
      rw [(bubbleUnseen near).mpr bare, (spriteUnseen near wide high).mpr free]
      rfl

end

end Canvas

inductive Call.Subject where
  | drawing
  | sprite (id : String)
  | bubble (number : Nat)
  deriving DecidableEq

def Call.subject : Call → Call.Subject
  | .resize _ _ | .line _ _ _ => .drawing
  | .spawn id _ | .place id _ | .reset id => .sprite id
  | .show number _ _ | .remove number => .bubble number

def Call.Near : Call → Prop
  | .place _ placement => Raster.NearPoint placement.position
  | .show _ position _ => Raster.NearPoint position
  | _ => True

instance : (call : Call) → Decidable call.Near
  | .place _ placement => inferInstanceAs (Decidable (Raster.NearPoint placement.position))
  | .show _ position _ => inferInstanceAs (Decidable (Raster.NearPoint position))
  | .resize _ _ | .line _ _ _ | .spawn _ _ | .reset _ | .remove _ => .isTrue trivial

namespace Canvas

inductive Part where
  | drawing (background : Grid)
  | sprite (sprite : Option Sprite)
  | bubble (bubble : Option (Point Float × String))

def part (c : Canvas) : Call.Subject → Part
  | .drawing => .drawing c.background
  | .sprite id => .sprite (c.sprites.get? id)
  | .bubble number => .bubble (c.bubbles.get? number)

theorem applyPart {c d : Canvas} (call : Call) (same : c.part call.subject = d.part call.subject) :
    (c.apply call).part call.subject = (d.apply call).part call.subject := by
  cases call with
  | resize width height => rfl
  | line start finish stroke =>
    have same : c.background = d.background := Part.drawing.inj same
    simp only [apply, drawLine, Call.subject, part, cols, rows, same]
  | spawn id sprite => simp only [apply, spawn, Call.subject, part, OrderedMap.getInsertSelf]
  | place id _ | reset id =>
    have same : c.sprites.get? id = d.sprites.get? id := Part.sprite.inj same
    simp only [apply, place, reset, Call.subject, part, OrderedMap.getModify, same]
  | «show» number position text => simp only [apply, showBubble, Call.subject, part, OrderedMap.getInsertSelf]
  | remove number => simp only [apply, remove, Call.subject, part, OrderedMap.getErase, if_true]

theorem applyApart (c : Canvas) {call : Call} {subject : Call.Subject} (apart : call.subject ≠ subject) :
    (c.apply call).part subject = c.part subject := by
  cases subject with
  | drawing =>
    cases call with
    | resize _ _ | line _ _ _ => contradiction
    | _ => rfl
  | sprite id =>
    have other (key : String) (different : Call.Subject.sprite key ≠ .sprite id) : key ≠ id :=
      fun same => different (congrArg _ same)
    cases call with
    | spawn key sprite => exact congrArg Part.sprite (OrderedMap.getInsertOther _ _ (other key apart))
    | place key _ | reset key =>
      exact congrArg Part.sprite ((OrderedMap.getModify _ _ _ _).trans (if_neg (other key apart).symm))
    | _ => rfl
  | bubble number =>
    have other (key : Nat) (different : Call.Subject.bubble key ≠ .bubble number) : key ≠ number :=
      fun same => different (congrArg _ same)
    cases call with
    | «show» key position text => exact congrArg Part.bubble (OrderedMap.getInsertOther _ _ (other key apart))
    | remove key => exact congrArg Part.bubble ((OrderedMap.getErase _ _ _).trans (if_neg (other key apart).symm))
    | _ => rfl

theorem applyAllPart {c d : Canvas} {subject : Call.Subject} (same : c.part subject = d.part subject)
    (calls : List Call) :
    (c.applyAll calls).part subject = (d.applyAll (calls.filter fun call => call.subject = subject)).part subject := by
  induction calls generalizing c d with
  | nil => exact same
  | cons call calls ih =>
    by_cases own : call.subject = subject
    · subst own
      rw [List.filter_cons, decide_eq_true rfl]
      exact ih (applyPart call same)
    · rw [List.filter_cons, decide_eq_false own]
      exact ih ((c.applyApart own).trans same)

theorem applyAllWalk (c : Canvas) (calls : List Call) : (c.applyAll calls).walkFrameSize = c.walkFrameSize := by
  induction calls generalizing c with
  | nil => rfl
  | cons call calls ih => exact (ih (c.apply call)).trans (by cases call <;> rfl)

theorem composeParts {c d : Canvas} (parts : ∀ subject, c.part subject = d.part subject)
    (walk : c.walkFrameSize = d.walkFrameSize) : c.compose = d.compose := by
  have background : c.background = d.background := Part.drawing.inj (parts .drawing)
  have sprites : c.sprites = d.sprites := OrderedMap.extGet fun id => Part.sprite.inj (parts (.sprite id))
  have bubbles : c.bubbles = d.bubbles := OrderedMap.extGet fun number => Part.bubble.inj (parts (.bubble number))
  obtain ⟨_, _, _, sent, _⟩ := c
  subst background sprites bubbles walk
  rfl

theorem Near.apply {c : Canvas} (near : c.Near) {call : Call} (own : call.Near) : (c.apply call).Near := by
  cases call with
  | resize _ _ | line _ _ _ => exact ⟨near.sprites, near.bubbles⟩
  | spawn id sprite =>
    refine ⟨fun other s placement here placed => ?_, near.bubbles⟩
    by_cases same : id = other
    · subst same
      cases (OrderedMap.getInsertSelf _ _ _).symm.trans here
      contradiction
    · exact near.sprites other s placement ((OrderedMap.getInsertOther _ _ same).symm.trans here) placed
  | place id placement =>
    refine ⟨fun other s spot here placed => ?_, near.bubbles⟩
    have here := (OrderedMap.getModify _ _ _ _).symm.trans here
    split at here
    · obtain ⟨before, _, rfl⟩ := Option.map_eq_some_iff.mp here
      cases placed
      exact own
    · exact near.sprites other s spot here placed
  | reset id =>
    refine ⟨fun other s spot here placed => ?_, near.bubbles⟩
    have here := (OrderedMap.getModify _ _ _ _).symm.trans here
    split at here
    · obtain ⟨before, _, rfl⟩ := Option.map_eq_some_iff.mp here
      contradiction
    · exact near.sprites other s spot here placed
  | «show» number position text =>
    refine ⟨near.sprites, fun other bubble here => ?_⟩
    by_cases same : number = other
    · subst same
      cases (OrderedMap.getInsertSelf _ _ _).symm.trans here
      exact own
    · exact near.bubbles other bubble ((OrderedMap.getInsertOther _ _ same).symm.trans here)
  | remove number =>
    refine ⟨near.sprites, fun other bubble here => ?_⟩
    have here := (OrderedMap.getErase _ _ _).symm.trans here
    split at here
    · contradiction
    · exact near.bubbles other bubble here

theorem ofSizeNear (cols rows : Nat) (walkFrameSize : Int) : (ofSize cols rows walkFrameSize).Near := ⟨nofun, nofun⟩

theorem applyAllNear {c : Canvas} (near : c.Near) {calls : List Call}
    (own : ∀ call ∈ calls, call.Near) : (c.applyAll calls).Near := by
  induction calls generalizing c with
  | nil => exact near
  | cons call calls ih =>
    exact ih (near.apply (own call List.mem_cons_self)) fun later mem => own later (List.mem_cons_of_mem _ mem)

theorem layersStack {c : Canvas} (near : c.Near) :
    (∀ col row, col < c.cols → row < c.rows → ∀ cell, c.compose.get col row = cell ↔ c.Shows col row cell) ∧
      (c.compose.cols = c.cols ∧ c.compose.rows = c.rows) ∧
      (∀ (p : Point Float) x y, Number.value? p.x = some x → Number.value? p.y = some y →
        Raster.spot? p = some (x.floor, if y = -Number.least then 0 else (y / 2).floor)) ∧
      (∀ d : Canvas, d.background = c.background → d.walkFrameSize = c.walkFrameSize →
        (∀ id, d.sprites.get? id = c.sprites.get? id) → (∀ number, d.bubbles.get? number = c.bubbles.get? number) →
          d.compose = c.compose) ∧
      (∀ calls others : List Call,
        (∀ subject, calls.filter (fun call => call.subject = subject) =
          others.filter fun call => call.subject = subject) →
            (c.applyAll calls).compose = (c.applyAll others).compose) ∧
      (∀ call : Call, call.subject ≠ .drawing → (c.apply call).background = c.background) ∧
      c.frameChanges.2.background = c.background ∧ c.frameChanges.2.sprites = c.sprites ∧
        c.frameChanges.2.bubbles = c.bubbles := by
  refine ⟨fun _ _ wide high _ => composeShows near wide high, c.composeSize,
    fun _ _ _ across down => Raster.spotExact across down, ?_, ?_,
    fun _ overlay => Part.drawing.inj (c.applyApart overlay), rfl, rfl, rfl⟩
  · intro d background walk sprites bubbles
    refine composeParts (fun subject => ?_) walk
    cases subject with
    | drawing => exact congrArg _ background
    | sprite id => exact congrArg _ (sprites id)
    | bubble number => exact congrArg _ (bubbles number)
  · intro calls others same
    refine composeParts (fun subject => ?_) ((c.applyAllWalk calls).trans (c.applyAllWalk others).symm)
    rw [applyAllPart rfl calls, applyAllPart rfl others, same subject]

theorem layersStackInCorner :
    let c := (ofSize 4 2).applyAll [.show 0 ⟨0.0, 1.0⟩ "ok", .spawn "b" "red", .place "b" ⟨⟨1.0, 0.0⟩, 90.0, 0⟩,
      .spawn "a" "blue", .place "a" ⟨⟨3.0, 1.0⟩, 0.0, 50⟩]
    c.Near ∧ c.Shows 0 0 ⟨'k', { fg := some (.named .black), bg := some (.named .white) }⟩ ∧
      c.Shows 1 0 ⟨' ', { fg := some (.named .black), bg := some (.named .white) }⟩ ∧ c.Shows 2 0 .blank ∧
      c.Shows 3 0 ⟨'↑', { fg := some (.named .blue) }⟩ := by
  intro c
  have near : c.Near := applyAllNear (ofSizeNear 4 2 50) (by decide +kernel)
  have shows := (layersStack near).1
  exact ⟨near, (shows 0 0 (by decide) (by decide) _).mp (by decide +kernel),
    (shows 1 0 (by decide) (by decide) _).mp (by decide +kernel),
    (shows 2 0 (by decide) (by decide) _).mp (by decide +kernel),
    (shows 3 0 (by decide) (by decide) _).mp (by decide +kernel)⟩

/- Half of the greatest float below zero is rounded up to zero, so what lies just above the upper edge is not cut. -/
theorem overlaysJustAboveShow :
    let y := Float.ofBits 0x8000000000000001
    let c := (ofSize 4 2).applyAll [.show 0 ⟨1.0, y⟩ "", .spawn "a" "red", .place "a" ⟨⟨3.0, y⟩, 90.0, 0⟩]
    c.Near ∧ (Number.value? y = some (-Number.least) ∧ (-Number.least / 2).floor = -1) ∧
      (c.background.get 0 0 = .blank ∧ c.compose.get 0 0 = ⟨' ', bubbleStyle⟩) ∧
      (c.background.get 3 0 = .blank ∧
        c.compose.get 3 0 = ⟨'→', { fg := some (.named .red), bold := true }⟩) := by
  intro y c
  have shape : (Float.ofBits 0x8000000000000001).toModel.unpack = .finite .negative 1 (-1074) (by decide) := rfl
  have value : Number.value? y = some (-Number.least) := (Number.valueFinite shape).trans (by
    rw [Float.Model.UnpackedFloat.Sign.apply, Int.cast_neg, Nat.cast_one, Int.cast_one, neg_one_mul, Number.least])
  have below : (-Number.least / 2).floor = -1 := by
    have unit := Number.leastPos
    have small := Number.fewLeast (n := 1) (by decide)
    exact Number.floorEq.mpr ⟨by push_cast at small ⊢; linarith, by push_cast; linarith⟩
  exact ⟨applyAllNear (ofSizeNear 4 2 50) (by decide +kernel), ⟨value, below⟩,
    ⟨by decide +kernel, by decide +kernel⟩, by decide +kernel, by decide +kernel⟩

end Canvas
end TurtleBoard
