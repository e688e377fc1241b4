import Mathlib.Data.List.Induction
import TurtleBoard.Board
import TurtleBoard.Proofs.Frames

/-! What the background of a canvas shows. Which strokes were faint is not kept: it is told from the cells, where what
is not blank and not dim is the mark of an opaque stroke. So the cell of the last opaque stroke over a place stays,
whatever faint ones come later; where there is none, the last faint one is seen. -/
namespace TurtleBoard

structure Segment where
  start : Point Float
  finish : Point Float
  stroke : Stroke Float

namespace Segment

def isFaint (s : Segment) : Bool := Canvas.isFaint (Canvas.strokeColor s.stroke).2

def cell (s : Segment) : Cell := Canvas.strokeCell s.stroke

def touches (cols rows x y : Nat) (s : Segment) : Bool := decide ((x, y) ∈ Raster.cells cols rows s.start s.finish)

def solid (segments : List Segment) : List Segment := segments.filter fun s => !s.isFaint

def faint (segments : List Segment) : List Segment := segments.filter isFaint

def left (touching : List Segment) : Cell :=
  match (solid touching).getLast?, (faint touching).getLast? with
  | some s, _ => s.cell
  | none, some s => s.cell
  | none, none => .blank

def paint (s : Segment) (old : Cell) : Cell := if s.isFaint && Canvas.isCovered old then old else s.cell

theorem coveredCell (s : Segment) : Canvas.isCovered s.cell = !s.isFaint := by
  rw [cell, isFaint, Canvas.strokeCell]
  cases faint : Canvas.isFaint (Canvas.strokeColor s.stroke).2 with
  | true =>
    simp only [faint, if_true]
    split <;> rfl
  | false =>
    simp only [faint, Bool.false_eq_true, if_false]
    split <;> rfl

theorem paintTwice (s : Segment) (old : Cell) : s.paint (s.paint old) = s.paint old := by
  by_cases keeps : (s.isFaint && Canvas.isCovered old) = true
  · have same : s.paint old = old := if_pos keeps
    rw [same, same]
  · have same : s.paint old = s.cell := if_neg keeps
    rw [same, paint]
    split <;> rfl

/- Cells tell the strokes apart: they are covered where an opaque one has been. -/
theorem coveredLeft (touching : List Segment) :
    Canvas.isCovered (left touching) = (solid touching).getLast?.isSome := by
  have own {p : Segment → Bool} {s : Segment} (last : (touching.filter p).getLast? = some s) : p s = true :=
    (List.mem_filter.mp (List.mem_of_getLast? last)).2
  rw [left]
  cases last : (solid touching).getLast? with
  | some s => exact (coveredCell s).trans (own last)
  | none =>
    cases last : (faint touching).getLast? with
    | some s => simp only [coveredCell, own last, Bool.not_true, Option.isSome_none]
    | none => rfl

theorem leftSnoc (touching : List Segment) (s : Segment) : left (touching ++ [s]) = s.paint (left touching) := by
  rw [paint, coveredLeft]
  cases kind : s.isFaint with
  | false =>
    have later : solid (touching ++ [s]) = solid touching ++ [s] := by
      simp only [solid, List.filter_append, List.filter_cons, kind, Bool.not_false, if_true, List.filter_nil]
    simp only [left, later, List.getLast?_append, List.getLast?_singleton, Option.some_or, Bool.false_and,
      Bool.false_eq_true, if_false]
  | true =>
    have same : solid (touching ++ [s]) = solid touching := by
      simp only [solid, List.filter_append, List.filter_cons, kind, Bool.not_true, Bool.false_eq_true, if_false,
        List.filter_nil, List.append_nil]
    have later : faint (touching ++ [s]) = faint touching ++ [s] := by
      simp only [faint, List.filter_append, List.filter_cons, kind, if_true, List.filter_nil]
    simp only [left, same, later, List.getLast?_append, List.getLast?_singleton, Option.some_or, Bool.true_and]
    cases (solid touching).getLast? <;> rfl

theorem solidSome (touching : List Segment) :
    (solid touching).getLast?.isSome = true ↔ ∃ s ∈ touching, s.isFaint = false := by
  rw [List.getLast?_isSome, solid]
  simp only [ne_eq, List.filter_eq_nil_iff, Bool.not_eq_true', not_forall, Decidable.not_not, exists_prop]

theorem leftSolid {touching others : List Segment} (same : solid others = solid touching) :
    Canvas.isCovered (left others) = Canvas.isCovered (left touching) ∧
      (Canvas.isCovered (left touching) = true → left others = left touching) := by
  rw [coveredLeft, coveredLeft, same]
  refine ⟨rfl, fun covered => ?_⟩
  obtain ⟨s, last⟩ := Option.isSome_iff_exists.mp covered
  simp only [left, same, last]

end Segment

namespace Canvas

theorem getPaintCell (s : Segment) (g : Grid) (place : Nat × Nat) {x y : Nat} (wide : x < g.cols) (high : y < g.rows) :
    (paintCell s.stroke g place).get x y = if (x, y) = place then s.paint (g.get x y) else g.get x y := by
  obtain ⟨col, row⟩ := place
  have same : (x, y) = (col, row) ↔ col = x ∧ row = y := by
    rw [Prod.mk.injEq, eq_comm, @eq_comm _ y]
  rw [paintCell]
  by_cases here : (x, y) = (col, row)
  · cases here
    rw [if_pos rfl, Segment.paint]
    change (if (s.isFaint && isCovered (g.get x y)) = true then g else g.set x y s.cell).get x y = _
    split
    · rfl
    · rw [Grid.getSet g x y _ wide high, if_pos ⟨rfl, rfl⟩]
  · rw [if_neg here]
    split
    · rfl
    · rw [Grid.getSet g col row _ wide high, if_neg (mt same.mpr here)]

/- A stroke may come over a place more than once, which makes no difference. -/
theorem getPainted (s : Segment) (places : List (Nat × Nat)) (g : Grid) {x y : Nat} (wide : x < g.cols)
    (high : y < g.rows) :
    (places.foldl (paintCell s.stroke) g).get x y = if (x, y) ∈ places then s.paint (g.get x y) else g.get x y := by
  induction places generalizing g with
  | nil => rfl
  | cons place places ih =>
    obtain ⟨cols, rows⟩ := paintCellSize s.stroke g place
    rw [List.foldl_cons, ih _ (cols ▸ wide) (rows ▸ high), getPaintCell s g place wide high]
    by_cases here : (x, y) = place
    · simp only [here, if_true, List.mem_cons, true_or, Segment.paintTwice, ite_self]
    · simp only [here, if_false, List.mem_cons, false_or]

def drawnAfter (drawn : List Segment) : Act → List Segment
  | .call (.line start finish stroke) _ => drawn ++ [⟨start, finish, stroke⟩]
  | .call (.resize _ _) _ => []
  | _ => drawn

def drawn (acts : List Act) : List Segment := acts.foldl drawnAfter []

def touching (c : Canvas) (x y : Nat) (segments : List Segment) : List Segment :=
  segments.filter (Segment.touches c.cols c.rows x y)

def Paints (segments : List Segment) (c : Canvas) : Prop :=
  ∀ x y, x < c.cols → y < c.rows → c.background.get x y = Segment.left (c.touching x y segments)

theorem Paints.line {segments : List Segment} {c : Canvas} (paints : Paints segments c) (s : Segment) :
    Paints (segments ++ [s]) (c.drawLine s.start s.finish s.stroke) := by
  have keeps : (Call.line s.start s.finish s.stroke).isResize = false := rfl
  obtain ⟨cols, rows, _⟩ := c.applyKeeps keeps
  change (c.drawLine s.start s.finish s.stroke).cols = c.cols at cols
  change (c.drawLine s.start s.finish s.stroke).rows = c.rows at rows
  intro x y wide high
  rw [cols] at wide
  rw [rows] at high
  have painted := getPainted s (Raster.cells c.cols c.rows s.start s.finish) c.background wide high
  change (c.drawLine s.start s.finish s.stroke).background.get x y = _ at painted
  rw [painted, paints x y wide high, touching, touching, cols, rows, List.filter_append]
  by_cases here : (x, y) ∈ Raster.cells c.cols c.rows s.start s.finish
  · have touches : s.touches c.cols c.rows x y = true := decide_eq_true here
    rw [if_pos here, List.filter_cons, if_pos touches, List.filter_nil, Segment.leftSnoc]
  · have misses : s.touches c.cols c.rows x y = false := decide_eq_false here
    rw [if_neg here, List.filter_cons, misses, if_neg Bool.false_ne_true, List.filter_nil, List.append_nil]

theorem paintsNothing {c : Canvas} {cols rows : Nat} (blank : c.background = .blank cols rows) : Paints [] c := by
  intro x y _ _
  rw [blank, Grid.getBlank]
  rfl

theorem Paints.after {segments : List Segment} {s : Session} (paints : Paints segments s.canvas) (act : Act) :
    Paints (drawnAfter segments act) (s.after act).canvas := by
  cases act with
  | call call noise =>
    cases call with
    | line start finish stroke => exact paints.line ⟨start, finish, stroke⟩
    | resize width height => exact paintsNothing rfl
    | _ => exact paints
  | invalidate noise => exact paints
  | frame => exact paints

namespace Session

theorem runPaints (cols rows : Nat) (walkFrameSize : Int) (display : Display) (acts : List Act) :
    Paints (drawn acts) (run cols rows walkFrameSize display acts).canvas := by
  induction acts using List.reverseRecOn with
  | nil => exact paintsNothing rfl
  | append_singleton acts act ih =>
    simp only [run, drawn, List.foldl_append, List.foldl_cons, List.foldl_nil] at ih ⊢
    exact ih.after act

theorem solidTouching (c : Canvas) (x y : Nat) (segments : List Segment) :
    Segment.solid (c.touching x y segments) = c.touching x y (Segment.solid segments) := by
  rw [Segment.solid, touching, touching, Segment.solid, List.filter_filter, List.filter_filter]
  exact List.filter_congr fun _ _ => Bool.and_comm _ _

theorem rulingFaint (b : Board) :
    ∀ call ∈ b.ruling, ∃ s : Segment, call = .line s.start s.finish s.stroke ∧ s.isFaint = true := by
  have faint (weight : Ruling.Weight) : isFaint (strokeColor ⟨weight.color, 1.0⟩).2 = true := by
    cases weight <;> decide +kernel
  intro call mem
  obtain ⟨line, _, rfl⟩ := List.mem_map.mp mem
  exact ⟨⟨line.start, line.finish, ⟨line.weight.color, 1.0⟩⟩, rfl, faint line.weight⟩

theorem faintStrokesHideNothing (cols rows : Nat) (walkFrameSize : Int) (display : Display) (acts : List Act) :
    let c := (run cols rows walkFrameSize display acts).canvas
    (∀ x y, x < c.cols → y < c.rows →
      let touching := c.touching x y (drawn acts)
      (c.background.get x y =
        match (touching.filter fun s => !s.isFaint).getLast?, (touching.filter fun s => s.isFaint).getLast? with
        | some s, _ => strokeCell s.stroke
        | none, some s => strokeCell s.stroke
        | none, none => .blank) ∧
      (isCovered (c.background.get x y) = true ↔ ∃ s ∈ touching, s.isFaint = false)) ∧
      (∀ wide high frameSize screen others,
        let d := (run wide high frameSize screen others).canvas
        d.cols = c.cols → d.rows = c.rows →
          ((drawn others).filter fun s => !s.isFaint) = ((drawn acts).filter fun s => !s.isFaint) →
            ∀ x y, x < c.cols → y < c.rows →
              isCovered (d.background.get x y) = isCovered (c.background.get x y) ∧
                (isCovered (c.background.get x y) = true → d.background.get x y = c.background.get x y)) ∧
      ∀ (b : Board), ∀ call ∈ b.ruling, ∃ s : Segment, call = .line s.start s.finish s.stroke ∧ s.isFaint = true := by
  intro c
  have paints : Paints (drawn acts) c := runPaints cols rows walkFrameSize display acts
  refine ⟨?_, ?_, rulingFaint⟩
  · intro x y inColumns inRows touching
    have painted := paints x y inColumns inRows
    refine ⟨painted, ?_⟩
    rw [painted, Segment.coveredLeft, Segment.solidSome]
  · intro wide high frameSize screen others d sameCols sameRows same x y inColumns inRows
    have others : d.background.get x y = Segment.left (d.touching x y (drawn others)) :=
      runPaints wide high frameSize screen others x y (sameCols ▸ inColumns) (sameRows ▸ inRows)
    rw [others, paints x y inColumns inRows]
    apply Segment.leftSolid
    rw [solidTouching, solidTouching, touching, touching, sameCols, sameRows]
    exact congrArg _ same

end Session

end Canvas
end TurtleBoard
