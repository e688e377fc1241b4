import TurtleBoard.Duration
import TurtleBoard.Point
import TurtleBoard.Script.Command

/-! Poses, pens, and transitions: single motions with a start, a target and the instants of both. -/
namespace TurtleBoard
variable {α : Type}

structure Pose (α : Type) where
  position : Point α
  angle : α
  distance : α
  deriving Repr

def Pose.initial [Scalar α] : Pose α := ⟨Point.origin, Scalar.zero, Scalar.zero⟩

structure Pen (α : Type) where
  color : Option String
  width : α
  deriving Repr

namespace Pen

def initial [Scalar α] : Pen α := ⟨none, Scalar.ofInt 2⟩

def after (pen : Pen α) : Command α → Pen α
  | .color color => { pen with color }
  | .width width => { pen with width }
  | .step _ | .turnLeft _ | .turnRight _ | .say _ => pen

end Pen

structure Stroke (α : Type) where
  color : String
  width : α
  deriving BEq, Repr

structure Rules (α : Type) where
  stepSize : α
  stepDelay : Duration
  pollInterval : Duration
  walkFrameDistance : α
  walkFrames : Nat

inductive Motion where
  | step
  | turn
  deriving DecidableEq, Repr

structure Transition (α : Type) where
  motion : Motion
  start : Point α
  startAngle : α
  target : Point α
  targetAngle : α
  startTime : Duration
  targetTime : Duration
  distance : α
  deriving Repr

namespace Transition

def duration (t : Transition α) : Duration := t.targetTime - t.startTime

def progress [Scalar α] (t : Transition α) (now : Duration) : α :=
  if t.duration = Duration.zero then Scalar.one
  else Scalar.clamp Scalar.zero Scalar.one ((now - t.startTime).seconds / t.duration.seconds)

def isDue (t : Transition α) (now : Duration) : Bool := decide (t.targetTime ≤ now)

def poseAt [Scalar α] (t : Transition α) (fraction : α) : Pose α where
  position := t.start.between t.target fraction
  angle := (t.targetAngle - t.startAngle) * fraction + t.startAngle
  distance := t.distance * fraction

def turn [Trig α] (rules : Rules α) (now : Duration) (pose : Pose α) (targetAngle : α) : Transition α where
  motion := .turn
  start := pose.position
  startAngle := pose.angle
  target := pose.position
  targetAngle := targetAngle
  startTime := now
  targetTime := now + rules.stepDelay
  distance := pose.position.distance pose.position

def walk [Trig α] (rules : Rules α) (now : Duration) (pose : Pose α) (count : α) : Transition α :=
  let heading := pose.angle - Scalar.ofInt 90
  let length := rules.stepSize * count
  let target : Point α :=
    ⟨pose.position.x + Trig.cosDegrees heading * length, pose.position.y + Trig.sinDegrees heading * length⟩
  { motion := .step
    start := pose.position
    startAngle := pose.angle
    target := target
    targetAngle := pose.angle
    startTime := now
    targetTime := now + rules.stepDelay.times count
    distance := pose.position.distance target }

def ofCommand? [Trig α] (rules : Rules α) (now : Duration) (pose : Pose α) : Command α → Option (Transition α)
  | .step count => some (walk rules now pose count)
  | .turnLeft degrees => some (turn rules now pose (pose.angle - degrees))
  | .turnRight degrees => some (turn rules now pose (pose.angle + degrees))
  | .color _ | .width _ | .say _ => none

end Transition
end TurtleBoard
