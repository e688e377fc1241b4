import TurtleBoard.Board
import TurtleBoard.Key
import TurtleBoard.Menu

/-! The player: a board in a terminal, with a menu above it and a status line below. It polls its source of actors,
advances the board and paints what has changed; keys become signals. It is told the time and the size of the terminal.
-/
namespace TurtleBoard

inductive Event where
  | key (key : Key)
  | resize (cols rows : Nat)
  | other
  deriving DecidableEq, Repr

structure Player (ω : Type) where
  board : Board
  source : Source
  canvas : Canvas
  link : ω
  lastPoll : Option Duration := none
  reportsReleases : Bool

namespace Player
variable {ω : Type}

def canvasRow : Nat := 1

def chromeRows : Nat := 2

def isRoomy (cols rows : Nat) : Bool := 10 ≤ cols && chromeRows + 5 ≤ rows

def keys (p : Player ω) : KeyBindings := p.board.config.keyBindings

def fit (p : Player ω) (cols rows : Nat) : List Paint × Player ω :=
  let (width, height) := Raster.pixelSize cols (rows - chromeRows)
  let (board, calls) := p.board.resize width height
  (Menu.paints p.keys p.reportsReleases, { p with board, canvas := (p.canvas.applyAll calls).invalidate })

def start? (board : Board) (source : Source) (link : ω) (reportsReleases : Bool) (cols rows : Nat) :
    Option (List Paint × Player ω) :=
  if isRoomy cols rows then
    let canvas := Canvas.ofSize 0 0 board.config.walkFrameSize
    some (fit { board, source, canvas, link, reportsReleases } cols rows)
  else none

def isPollDue (p : Player ω) (now : Duration) : Bool :=
  match p.lastPoll with
  | none => true
  | some last => decide (p.board.config.pollInterval ≤ now - last)

def speedText (pace : Pace) : String :=
  if !pace.accelerate then "normal" else if pace.latched then "skipping" else "fast"

def statusText (b : Board) : String :=
  let finished := b.actors.values.countP Actor.isFinished
  " Actors " ++ toString finished ++ "/" ++ toString b.actors.values.length ++ " done | step " ++
    Number.textOnePlace b.stepSize ++ "px | " ++ speedText b.pace ++ " "

def statusPaints (p : Player ω) (height : Nat) : List Paint :=
  let row := p.canvas.rows + canvasRow
  if row < height then [.clear row, .print 0 row { dim := true } (statusText p.board).toList] else []

def changePaint (change : CellChange) : Paint :=
  .print change.x (change.y + canvasRow) change.cell.style [change.cell.char]

variable [Link ω]

def poll (p : Player ω) (now : Duration) : Player ω :=
  let (newcomers, source, link) := p.source.poll p.link
  let (board, calls, _) := p.board.connect now newcomers
  { p with board, source, link, canvas := p.canvas.applyAll calls, lastPoll := some now }

def advance (p : Player ω) (now : Duration) : Player ω :=
  let advance := p.board.advance now p.link
  { p with board := advance.board, link := advance.link, canvas := p.canvas.applyAll advance.calls }

def frame (p : Player ω) (now : Duration) (height : Nat) : List Paint × Player ω :=
  let p := (if p.isPollDue now then p.poll now else p).advance now
  let (changes, canvas) := p.canvas.frameChanges
  let p := { p with canvas }
  (changes.map changePaint ++ p.statusPaints height, p)

omit [Link ω]

def isQuit (p : Player ω) (key : Key) : Bool :=
  key.kind != .release &&
    (key.isBinding p.keys.quit || key.code == .esc || (key.code == .char 'c' && key.modifiers.control))

def press (p : Player ω) (key : Key) : Player ω :=
  if key.isBinding p.keys.accelerateHold then
    match key.kind with
    | .press => { p with board := if p.reportsReleases then p.board.signal .holdPressed else p.board.toggleHold }
    | .release => { p with board := p.board.signal .holdReleased }
    | .repeated => p
  else if key.isBinding p.keys.accelerateLatch then
    match key.kind with
    | .press => { p with board := p.board.signal .latchPressed }
    | .release => { p with board := p.board.signal .latchReleased }
    | .repeated => p
  else p

def handle (p : Player ω) : Event → Option (List Paint × Player ω)
  | .key key => if p.isQuit key then none else some ([], p.press key)
  | .resize cols rows => some (p.fit cols rows)
  | .other => some ([], p)

end Player
end TurtleBoard
