import TurtleBoard.Motion
import TurtleBoard.Supply
import TurtleBoard.Walk

/-! The stepper of one actor. A tick lands the motion that is due, takes actions from the supply until one of them moves
the actor, and shows the motion in flight. Ticks read no clock; the caller names the instant. -/
namespace TurtleBoard

structure Pace where
  accelerate : Bool := false
  latched : Bool := false
  deriving DecidableEq, Repr

inductive Effect (α : Type) where
  | trail (start finish : Point α) (stroke : Stroke α)
  | say (position : Point α) (text : String)
  | pose (position : Point α) (angle : α) (walkFrame : Nat)
  deriving Repr

inductive Wake where
  | nextFrame
  | after (delay : Duration)
  | finished
  deriving DecidableEq, Repr

inductive Phase where
  | idle
  | stepping
  | waiting
  | finished
  deriving DecidableEq, Repr

structure Stepper (α : Type) where
  pose : Pose α
  pen : Pen α
  transition : Option (Transition α)
  phase : Phase
  deriving Repr

structure Tick (σ α : Type) where
  stepper : Stepper α
  supply : σ
  pace : Pace
  landed : Option (Transition α) := none
  taken : List (Action α) := []
  effects : List (Effect α) := []
  wake : Wake

namespace Stepper
variable {α σ : Type}

def initial [Scalar α] : Stepper α := ⟨Pose.initial, Pen.initial, none, .idle⟩

def isDue (s : Stepper α) (now : Duration) : Bool :=
  match s.transition with
  | none => true
  | some t => t.isDue now

def showPose (s : Stepper α) (walkFrame : Nat) : Effect α := .pose s.pose.position s.pose.angle walkFrame

def moveTo [Scalar α] (rules : Rules α) (pose : Pose α) (s : Stepper α) : Stepper α × List (Effect α) :=
  let moved := { s with pose }
  let trail :=
    match s.pen.color with
    | some color =>
        if s.pose.position == pose.position then []
        else [.trail s.pose.position pose.position ⟨color, s.pen.width⟩]
    | none => []
  (moved, trail ++ [moved.showPose (Walk.frame pose.distance rules.walkFrameDistance rules.walkFrames)])

def showAt [Scalar α] (rules : Rules α) (now : Duration) (s : Stepper α) : Stepper α × List (Effect α) :=
  match s.transition with
  | some t => s.moveTo rules (t.poseAt (t.progress now))
  | none => (s, [])

def land [Scalar α] (rules : Rules α) (pace : Pace) (s : Stepper α) : Stepper α × Pace × List (Effect α) :=
  match s.transition with
  | some t =>
      let (landed, effects) := s.moveTo rules (t.poseAt Scalar.one)
      ({ landed with transition := none, pose := { landed.pose with distance := Scalar.zero } },
        if t.motion = .step && pace.latched then {} else pace, effects)
  | none => ({ s with pose := { s.pose with distance := Scalar.zero } }, pace, [s.showPose 0])

structure Taking (σ α : Type) where
  stepper : Stepper α
  supply : σ
  taken : List (Action α) := []
  effects : List (Effect α) := []
  wake : Option Wake

def takeUpTo [Trig α] [Supply σ α] (rules : Rules α) (now : Duration) : Nat → σ → Stepper α → Taking σ α
  | 0, supply, s => ⟨{ s with phase := .waiting }, supply, [], [], some (.after rules.pollInterval)⟩
  | fuel + 1, supply, s =>
      match Supply.pull supply with
      | (.waiting, supply) => ⟨{ s with phase := .waiting }, supply, [], [], some (.after rules.pollInterval)⟩
      | (.done, supply) => ⟨{ s with phase := .finished }, supply, [], [], some .finished⟩
      | (.ready action, supply) =>
          match Transition.ofCommand? rules now s.pose action.command with
          | some t => ⟨{ s with transition := some t, phase := .stepping }, supply, [action], [], none⟩
          | none =>
              let later := takeUpTo rules now fuel supply { s with pen := s.pen.after action.command }
              let said :=
                match action.command with
                | .say text => [.say s.pose.position text]
                | _ => []
              { later with taken := action :: later.taken, effects := said ++ later.effects }

def takeNext [Trig α] [Supply σ α] (rules : Rules α) (now : Duration) (supply : σ) (s : Stepper α) : Taking σ α :=
  s.takeUpTo rules now (Supply.bound supply + 1) supply

def tick [Trig α] [Supply σ α] (rules : Rules α) (now : Duration) (pace : Pace) (supply : σ) (s : Stepper α) :
    Tick σ α :=
  if s.phase = .finished then { stepper := s, supply, pace, wake := .finished }
  else if s.isDue now || pace.accelerate then
    let (landed, pace, landing) := s.land rules pace
    let next := landed.takeNext rules now supply
    let report : Tick σ α :=
      { stepper := next.stepper, supply := next.supply, pace, landed := s.transition, taken := next.taken,
        effects := landing ++ next.effects, wake := .nextFrame }
    match next.wake with
    | some wake => { report with wake }
    | none =>
        let (shown, effects) := next.stepper.showAt rules now
        { report with stepper := shown, effects := report.effects ++ effects }
  else
    let (shown, effects) := s.showAt rules now
    { stepper := shown, supply, pace, effects, wake := .nextFrame }

end Stepper
end TurtleBoard
