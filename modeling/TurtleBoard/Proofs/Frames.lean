import TurtleBoard.Canvas
import TurtleBoard.Proofs.Grid

/-! Frames sent as changes keep a display equal to the whole picture, whatever is drawn between them and whatever the
display holds after a new size or when the last frame is forgotten. The remembered frame has the size of the canvas, it
is the picture that was last reported, and the display still shows it. -/
namespace TurtleBoard

def Call.isResize : Call → Bool
  | .resize _ _ => true
  | _ => false

namespace Canvas

theorem paintCellSize (stroke : Stroke Float) (g : Grid) (place : Nat × Nat) :
    (paintCell stroke g place).cols = g.cols ∧ (paintCell stroke g place).rows = g.rows := by
  unfold paintCell
  split <;> simp

theorem foldlSize {β : Type} (f : Grid → β → Grid) (keeps : ∀ g b, (f g b).cols = g.cols ∧ (f g b).rows = g.rows)
    (items : List β) (g : Grid) : (items.foldl f g).cols = g.cols ∧ (items.foldl f g).rows = g.rows := by
  induction items generalizing g with
  | nil => exact ⟨rfl, rfl⟩
  | cons item items ih =>
    obtain ⟨cols, rows⟩ := ih (f g item)
    exact ⟨cols.trans (keeps g item).1, rows.trans (keeps g item).2⟩

theorem putSpriteSize (c : Canvas) (g : Grid) (sprite : Sprite) :
    (c.putSprite g sprite).cols = g.cols ∧ (c.putSprite g sprite).rows = g.rows := by
  unfold putSprite
  split
  · exact ⟨rfl, rfl⟩
  · split <;> simp

theorem putLabelSize (row : Nat) (column : Int) (label : List Char) (g : Grid) :
    (putLabel row column label g).cols = g.cols ∧ (putLabel row column label g).rows = g.rows := by
  induction label generalizing column g with
  | nil => exact ⟨rfl, rfl⟩
  | cons c cs ih =>
    rw [putLabel]
    obtain ⟨cols, rows⟩ := ih (column + 1)
      (if 0 ≤ column ∧ column < g.cols then g.set column.toNat row ⟨c, bubbleStyle⟩ else g)
    rw [cols, rows]
    split <;> simp

theorem putBubbleSize (g : Grid) (bubble : Point Float × String) :
    (putBubble g bubble).cols = g.cols ∧ (putBubble g bubble).rows = g.rows := by
  simp only [putBubble]
  split
  · exact ⟨rfl, rfl⟩
  · exact putLabelSize _ _ _ _

theorem composeSize (c : Canvas) : c.compose.cols = c.cols ∧ c.compose.rows = c.rows := by
  obtain ⟨cols, rows⟩ := foldlSize putBubble putBubbleSize c.bubbles.values
    (c.sprites.values.foldl c.putSprite c.background)
  obtain ⟨cols', rows'⟩ := foldlSize c.putSprite c.putSpriteSize c.sprites.values c.background
  exact ⟨cols.trans cols', rows.trans rows'⟩

theorem resizeForgets (c : Canvas) {call : Call} (resizes : call.isResize = true) : (c.apply call).sent = none := by
  cases call with
  | resize _ _ => rfl
  | _ => contradiction

theorem applyKeeps (c : Canvas) {call : Call} (keeps : call.isResize = false) :
    (c.apply call).cols = c.cols ∧ (c.apply call).rows = c.rows ∧ (c.apply call).sent = c.sent := by
  cases call with
  | resize _ _ => contradiction
  | line start finish stroke =>
    obtain ⟨cols, rows⟩ := foldlSize (paintCell stroke) (paintCellSize stroke)
      (Raster.cells c.cols c.rows start finish) c.background
    exact ⟨cols, rows, rfl⟩
  | _ => exact ⟨rfl, rfl, rfl⟩

end Canvas

def Display : Type := Nat → Nat → Cell

namespace Display

def write (d : Display) (change : CellChange) : Display :=
  fun x y => if x = change.x ∧ y = change.y then change.cell else d x y

def writeAll (d : Display) (changes : List CellChange) : Display := changes.foldl write d

def Shows (d : Display) (g : Grid) : Prop := ∀ x y, x < g.cols → y < g.rows → d x y = g.get x y

theorem writeInside {x y : Nat} {g : Grid} {changes : List CellChange} (d : Display)
    (from' : ∀ change ∈ changes, change.cell = g.get change.x change.y)
    (written : (∃ change ∈ changes, change.place = (x, y)) ∨ d x y = g.get x y) :
    d.writeAll changes x y = g.get x y := by
  induction changes generalizing d with
  | nil => exact written.resolve_left (by rintro ⟨_, mem, _⟩; cases mem)
  | cons change changes ih =>
    refine ih (d.write change) (fun later mem => from' later (List.mem_cons_of_mem _ mem)) ?_
    by_cases here : x = change.x ∧ y = change.y
    · refine .inr ((if_pos here).trans ?_)
      rw [here.1, here.2]
      exact from' change List.mem_cons_self
    · rcases written with ⟨later, mem, place⟩ | same
      · rcases List.mem_cons.mp mem with rfl | mem
        · obtain ⟨rfl, rfl⟩ := Prod.mk.inj place
          exact absurd ⟨rfl, rfl⟩ here
        · exact .inl ⟨later, mem, place⟩
      · exact .inr ((if_neg here).trans same)

theorem writeAllShows {d : Display} {g : Grid} (x y : Nat) (hx : x < g.cols) (hy : y < g.rows) :
    d.writeAll g.all x y = g.get x y :=
  writeInside d (fun _ mem => (Grid.memAll.mp mem).2.2)
    (.inl ⟨⟨x, y, g.get x y⟩, Grid.memAll.mpr ⟨hx, hy, rfl⟩, rfl⟩)

theorem writeDifferencesShows {d : Display} {old g : Grid} (cols : old.cols = g.cols) (rows : old.rows = g.rows)
    (shown : d.Shows old) (x y : Nat) (hx : x < g.cols) (hy : y < g.rows) :
    d.writeAll (old.differences g) x y = g.get x y := by
  refine writeInside d (fun _ mem => ((Grid.memDifferences cols rows).mp mem).2.2.2) ?_
  by_cases same : old.get x y = g.get x y
  · exact .inr ((shown x y (cols ▸ hx) (rows ▸ hy)).trans same)
  · exact .inl ⟨⟨x, y, g.get x y⟩, (Grid.memDifferences cols rows).mpr ⟨hx, hy, same, rfl⟩, rfl⟩

end Display

namespace Canvas

/- What can happen to a canvas. After a resize, and when the last frame is forgotten, the display holds `noise`. -/
inductive Act where
  | call (call : Call) (noise : Display)
  | invalidate (noise : Display)
  | frame

structure Session where
  canvas : Canvas
  display : Display
  reported : Option Grid := none

namespace Session

def after (s : Session) : Act → Session
  | .call call noise =>
      { s with canvas := s.canvas.apply call, display := if call.isResize then noise else s.display }
  | .invalidate noise => { s with canvas := s.canvas.invalidate, display := noise }
  | .frame =>
      { canvas := s.canvas.frameChanges.2
        display := s.display.writeAll s.canvas.frameChanges.1
        reported := some s.canvas.compose }

def run (cols rows : Nat) (walkFrameSize : Int) (display : Display) (acts : List Act) : Session :=
  acts.foldl after { canvas := .ofSize cols rows walkFrameSize, display }

def Current (s : Session) : Prop :=
  ∀ sent, s.canvas.sent = some sent →
    sent.cols = s.canvas.cols ∧ sent.rows = s.canvas.rows ∧ s.reported = some sent ∧ s.display.Shows sent

theorem frameShows {s : Session} (current : s.Current) : (s.after .frame).display.Shows s.canvas.compose := by
  intro x y hx hy
  simp only [after, frameChanges]
  cases remembered : s.canvas.sent with
  | none => exact Display.writeAllShows x y hx hy
  | some sent =>
    obtain ⟨cols, rows, _, shown⟩ := current sent remembered
    obtain ⟨cols', rows'⟩ := s.canvas.composeSize
    exact Display.writeDifferencesShows (cols.trans cols'.symm) (rows.trans rows'.symm) shown x y hx hy

theorem afterCurrent {s : Session} (current : s.Current) (act : Act) : (s.after act).Current := by
  intro sent remembered
  cases act with
  | call call noise =>
    cases resizes : call.isResize with
    | true =>
      have forgotten := s.canvas.resizeForgets resizes
      cases forgotten.symm.trans remembered
    | false =>
      obtain ⟨cols, rows, kept⟩ := s.canvas.applyKeeps resizes
      obtain ⟨cols', rows', reported, shown⟩ := current sent (kept.symm.trans remembered)
      refine ⟨cols'.trans cols.symm, rows'.trans rows.symm, reported, ?_⟩
      simpa only [after, resizes, Bool.false_eq_true, if_false] using shown
  | invalidate noise => contradiction
  | frame =>
    cases Option.some.inj remembered
    obtain ⟨cols, rows⟩ := s.canvas.composeSize
    exact ⟨cols, rows, rfl, frameShows current⟩

theorem runCurrent (cols rows : Nat) (walkFrameSize : Int) (display : Display) (acts : List Act) :
    (run cols rows walkFrameSize display acts).Current := by
  have onwards (s : Session) (current : s.Current) : (acts.foldl after s).Current := by
    induction acts generalizing s with
    | nil => exact current
    | cons act acts ih => exact ih _ (afterCurrent current act)
  exact onwards _ (by intro sent remembered; contradiction)

theorem framesShowThePicture (cols rows : Nat) (walkFrameSize : Int) (display : Display) (acts : List Act) :
    let s := run cols rows walkFrameSize display acts
    let picture := s.canvas.compose
    let changes := s.canvas.frameChanges.1
    (∀ x y, x < s.canvas.cols → y < s.canvas.rows → (s.after .frame).display x y = picture.get x y) ∧
    (∀ change ∈ changes, change.x < s.canvas.cols ∧ change.y < s.canvas.rows) ∧
    (changes.map CellChange.place).Nodup ∧
    (s.canvas.sent = none → ∀ change, change ∈ changes ↔
      change.x < s.canvas.cols ∧ change.y < s.canvas.rows ∧ change.cell = picture.get change.x change.y) ∧
    (∀ sent, s.canvas.sent = some sent → s.reported = some sent ∧ ∀ change, change ∈ changes ↔
      change.x < s.canvas.cols ∧ change.y < s.canvas.rows ∧
        sent.get change.x change.y ≠ picture.get change.x change.y ∧
        change.cell = picture.get change.x change.y) := by
  intro s picture changes
  have current : s.Current := runCurrent cols rows walkFrameSize display acts
  obtain ⟨width, height⟩ : picture.cols = s.canvas.cols ∧ picture.rows = s.canvas.rows := s.canvas.composeSize
  rw [← width, ← height]
  refine ⟨frameShows current, ?_⟩
  cases remembered : s.canvas.sent with
  | none =>
    have whole : changes = picture.all := by simp only [changes, frameChanges, remembered, picture]
    rw [whole]
    refine ⟨?_, picture.allNodup, fun _ _ => Grid.memAll, fun _ found => by contradiction⟩
    intro change mem
    obtain ⟨hx, hy, _⟩ := Grid.memAll.mp mem
    exact ⟨hx, hy⟩
  | some sent =>
    obtain ⟨cols', rows', reported, _⟩ := current sent remembered
    have differ : changes = sent.differences picture := by simp only [changes, frameChanges, remembered, picture]
    have exactly (change : CellChange) : change ∈ sent.differences picture ↔ _ :=
      Grid.memDifferences (cols'.trans width.symm) (rows'.trans height.symm)
    rw [differ]
    refine ⟨?_, sent.differencesNodup picture, fun empty => by contradiction, ?_⟩
    · intro change mem
      obtain ⟨hx, hy, _⟩ := (exactly change).mp mem
      exact ⟨hx, hy⟩
    · intro _ found
      cases found
      exact ⟨reported, exactly⟩

end Session
end Canvas
end TurtleBoard
