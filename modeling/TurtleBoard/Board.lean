import TurtleBoard.Canvas
import TurtleBoard.Config
import TurtleBoard.Moves
import TurtleBoard.Ruling
import TurtleBoard.Spawn
import TurtleBoard.Stepper

/-! The board: its size, its actors and their bubbles. It steps the actors that want it, in the order of their ids, and
answers every operation with the calls on the surface that it draws on. It knows neither a clock nor a terminal. -/
namespace TurtleBoard

inductive Signal where
  | holdPressed
  | holdReleased
  | latchPressed
  | latchReleased
  deriving DecidableEq, Repr

def Pace.after (pace : Pace) : Signal → Pace
  | .holdPressed => { pace with accelerate := true }
  | .holdReleased => { pace with accelerate := false }
  | .latchPressed => ⟨true, true⟩
  | .latchReleased => pace

structure Actor where
  stepper : Stepper Float
  moves : Moves
  offset : Point Float
  sprite : String
  wakeAt : Option Duration

namespace Actor

def isFinished (a : Actor) : Bool := a.stepper.phase == .finished

def isDue (a : Actor) (now : Duration) : Bool :=
  match a.wakeAt with
  | some due => decide (due ≤ now)
  | none => false

end Actor

structure Bubble where
  number : Nat
  expiresAt : Duration
  deriving DecidableEq, Repr

structure Board where
  config : Config
  width : Float := 0.0
  height : Float := 0.0
  stepSize : Float := 0.0
  pace : Pace := {}
  actors : OrderedMap String Actor := {}
  bubbles : List Bubble := []
  nextBubble : Nat := 0
  draws : Draws := []

namespace Board

def spriteColors : List String := [
  "original", "periwinkle", "yellow", "red", "orange", "lime-green", "forest-green", "purple", "gray", "brown",
  "fuschia", "hot-pink"]

def ofConfig (config : Config) (draws : Draws) : Board := { config, draws }

def isSettled (b : Board) : Bool := b.bubbles.isEmpty && b.actors.values.all Actor.isFinished

def rules (b : Board) : Rules Float where
  stepSize := b.stepSize
  stepDelay := b.config.stepDelay
  pollInterval := b.config.pollInterval
  walkFrameDistance := b.config.walkFrameDistance
  walkFrames := b.config.walkFrames

def ruling (b : Board) : List Call :=
  (Ruling.lines b.stepSize b.width b.height).map fun line => .line line.start line.finish ⟨line.weight.color, 1.0⟩

def resize (b : Board) (width height : Float) : Board × List Call :=
  let b := { b with width, height, stepSize := Ruling.stepSize b.config.stepsInEachDirection width height }
  (b, .resize width height :: (b.ruling ++ b.actors.keys.map .reset))

def signal (b : Board) (signal : Signal) : Board := { b with pace := b.pace.after signal }

/- Turns acceleration on or off, for terminals that do not report when a key is released. -/
def toggleHold (b : Board) : Board := b.signal (if b.pace.accelerate then .holdReleased else .holdPressed)

def canvasPoint (b : Board) (offset p : Point Float) : Point Float := Spawn.canvasPoint b.width b.height offset p

def place (b : Board) (id : String) (offset p : Point Float) (angle : Float) (walkFrame : Nat) : Call :=
  .place id ⟨b.canvasPoint offset p, angle, Walk.sheetOffset walkFrame b.config.walkFrameSize⟩

def add (b : Board) (newcomer : Newcomer) (now : Duration) : Board × List Call :=
  let (sprite, draws) := b.draws.below spriteColors.length
  let sprite := spriteColors.getD sprite ""
  let (offset, draws) := Spawn.offset b.width b.height b.config.spawnFraction draws
  let actor : Actor :=
    { stepper := .initial, moves := newcomer.moves, offset, sprite, wakeAt := some (now + b.config.firstStepDelay) }
  let standing := Walk.frame 0.0 b.config.walkFrameDistance b.config.walkFrames
  ({ b with actors := b.actors.insert newcomer.id actor, draws },
    [.spawn newcomer.id sprite, b.place newcomer.id offset Point.origin 0.0 standing])

def connect (b : Board) (now : Duration) : List Newcomer → Board × List Call × Nat
  | [] => (b, [], 0)
  | newcomer :: rest =>
      if b.actors.contains newcomer.id then b.connect now rest
      else
        let (b, calls) := b.add newcomer now
        let (b, later, added) := b.connect now rest
        (b, calls ++ later, added + 1)

def showEffects (b : Board) (now : Duration) (id : String) (offset : Point Float) :
    List (Effect Float) → Board × List Call
  | [] => (b, [])
  | effect :: rest =>
      match effect with
      | .trail start finish stroke =>
          let (after, calls) := b.showEffects now id offset rest
          (after, .line (b.canvasPoint offset start) (b.canvasPoint offset finish) stroke :: calls)
      | .say position text =>
          let bubble : Bubble := ⟨b.nextBubble, now + b.config.bubbleTtl⟩
          let (after, calls) :=
            showEffects { b with nextBubble := b.nextBubble + 1, bubbles := b.bubbles ++ [bubble] } now id offset rest
          (after, .show bubble.number (b.canvasPoint offset position) text :: calls)
      | .pose position angle walkFrame =>
          let (after, calls) := b.showEffects now id offset rest
          (after, b.place id offset position angle walkFrame :: calls)

variable {ω : Type} [Link ω]

structure Turn (ω : Type) where
  id : String
  tick : Tick (Moves × ω) Float
  calls : List Call

def wakeAfter (now : Duration) : Wake → Option Duration
  | .nextFrame => some now
  | .after delay => some (now + delay)
  | .finished => none

def turn (b : Board) (now : Duration) (id : String) (actor : Actor) (link : ω) : Board × ω × Turn ω :=
  let tick := actor.stepper.tick b.rules now b.pace (actor.moves, link)
  let (after, calls) := { b with pace := tick.pace }.showEffects now id actor.offset tick.effects
  let actor := { actor with stepper := tick.stepper, moves := tick.supply.1, wakeAt := wakeAfter now tick.wake }
  ({ after with actors := after.actors.insert id actor }, tick.supply.2, ⟨id, tick, calls⟩)

def turns (now : Duration) : List (String × Actor) → Board → ω → Board × ω × List (Turn ω)
  | [], b, link => (b, link, [])
  | (id, actor) :: rest, b, link =>
      if actor.isDue now then
        let (b, link, turn) := b.turn now id actor link
        let (b, link, later) := turns now rest b link
        (b, link, turn :: later)
      else turns now rest b link

structure Advance (ω : Type) where
  board : Board
  link : ω
  expired : List Nat
  turns : List (Turn ω)

def Advance.calls (a : Advance ω) : List Call := a.expired.map .remove ++ a.turns.flatMap (·.calls)

def advance (b : Board) (now : Duration) (link : ω) : Advance ω :=
  let (expired, bubbles) := b.bubbles.partition fun bubble => decide (bubble.expiresAt ≤ now)
  let (after, link, turns) := turns now b.actors.entries { b with bubbles } link
  ⟨after, link, expired.map (·.number), turns⟩

end Board
end TurtleBoard
