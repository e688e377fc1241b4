import TurtleBoard.Proofs.Taking

/-! Playback does not depend on when the actor is ticked, how often, or with which keys held. A course is what the
commands alone amount to, each motion done in one stroke by the formula of a landing. A stepper is at every moment at
the end of the course of the commands that it took, or on the way of the last of them, and it has said what the course
says. -/
namespace TurtleBoard
variable {α σ : Type}

structure Course (α : Type) where
  position : Point α
  angle : α
  pen : Pen α
  said : List (Point α × String)

namespace Course

def origin [Scalar α] : Course α := ⟨Point.origin, Scalar.zero, Pen.initial, []⟩

def goal? [Trig α] (stepSize : α) (c : Course α) : Command α → Option (Point α × α)
  | .step count =>
      let heading := c.angle - Scalar.ofInt 90
      let length := stepSize * count
      some (⟨c.position.x + Trig.cosDegrees heading * length, c.position.y + Trig.sinDegrees heading * length⟩, c.angle)
  | .turnLeft degrees => some (c.position, c.angle - degrees)
  | .turnRight degrees => some (c.position, c.angle + degrees)
  | .color _ | .width _ | .say _ => none

def reach [Scalar α] (c : Course α) (goal : Point α × α) : Course α :=
  { c with
    position := c.position.between goal.1 Scalar.one
    angle := (goal.2 - c.angle) * Scalar.one + c.angle }

def after [Trig α] (stepSize : α) (c : Course α) (command : Command α) : Course α :=
  match command, c.goal? stepSize command with
  | _, some goal => c.reach goal
  | .color color, none => { c with pen := { c.pen with color } }
  | .width width, none => { c with pen := { c.pen with width } }
  | .say text, none => { c with said := c.said ++ [(c.position, text)] }
  | _, none => c

def along [Trig α] (stepSize : α) (commands : List (Command α)) : Course α :=
  commands.foldl (after stepSize) origin

theorem alongSnoc [Trig α] (stepSize : α) (commands : List (Command α)) (command : Command α) :
    along stepSize (commands ++ [command]) = (along stepSize commands).after stepSize command := by
  simp only [along, List.foldl_append, List.foldl_cons, List.foldl_nil]

theorem afterGoal [Trig α] {stepSize : α} {c : Course α} {command : Command α} {goal : Point α × α}
    (heads : c.goal? stepSize command = some goal) : c.after stepSize command = c.reach goal := by
  simp only [after, heads]

end Course

def Effect.said? : Effect α → Option (Point α × String)
  | .say position text => some (position, text)
  | .trail .. | .pose .. => none

def saidIn (effects : List (Effect α)) : List (Point α × String) := effects.filterMap Effect.said?

@[simp] theorem saidAppend (before later : List (Effect α)) :
    saidIn (before ++ later) = saidIn before ++ saidIn later := List.filterMap_append

namespace Stepper

structure RestsAt (s : Stepper α) (c : Course α) : Prop where
  rest : s.transition = none
  position : s.pose.position = c.position
  angle : s.pose.angle = c.angle
  pen : s.pen = c.pen

structure HeadsFor [Trig α] (stepSize : α) (s : Stepper α) (t : Transition α) (c : Course α) (command : Command α) :
    Prop where
  moving : s.transition = some t
  start : t.start = c.position
  startAngle : t.startAngle = c.angle
  pen : s.pen = c.pen
  goal : c.goal? stepSize command = some (t.target, t.targetAngle)

/- The pose of a stepper that rests is the end of the course. While a motion is in flight the pose says nothing: start
and target of the motion are those of the last command, seen from the end of the course of the others. -/
def Follows [Trig α] (stepSize : α) (s : Stepper α) (commands : List (Command α)) : Prop :=
  s.RestsAt (.along stepSize commands) ∨
    ∃ t before last, commands = before ++ [last] ∧ s.HeadsFor stepSize t (.along stepSize before) last

variable [Trig α]

theorem saidMoveTo (rules : Rules α) (pose : Pose α) (s : Stepper α) : saidIn (s.moveTo rules pose).2 = [] := by
  simp only [moveTo, saidAppend]
  split
  · split <;> rfl
  · rfl

theorem saidLand (rules : Rules α) (pace : Pace) (s : Stepper α) : saidIn (s.land rules pace).2.2 = [] := by
  cases moving : s.transition with
  | none => rw [landAtRest rules pace moving]; rfl
  | some t => rw [landInFlight rules pace moving]; exact saidMoveTo rules _ s

theorem saidShowAt (rules : Rules α) (now : Duration) (s : Stepper α) : saidIn (s.showAt rules now).2 = [] := by
  rw [showAt]
  split
  · exact saidMoveTo rules _ s
  · rfl

theorem landRests {rules : Rules α} {s : Stepper α} {commands : List (Command α)} (pace : Pace)
    (follows : s.Follows rules.stepSize commands) :
    (s.land rules pace).1.RestsAt (.along rules.stepSize commands) := by
  rcases follows with rests | ⟨t, before, last, rfl, heads⟩
  · rw [landAtRest rules pace rests.rest]
    exact ⟨rfl, rests.position, rests.angle, rests.pen⟩
  · rw [landInFlight rules pace heads.moving, Course.alongSnoc, Course.afterGoal heads.goal]
    refine ⟨rfl, ?_, ?_, heads.pen⟩
    · simp only [Transition.poseAt, Course.reach, heads.start]
    · simp only [Transition.poseAt, Course.reach, heads.startAngle]

theorem showAtFollows {stepSize : α} {s : Stepper α} {commands : List (Command α)} (rules : Rules α) (now : Duration)
    (follows : s.Follows stepSize commands) : (s.showAt rules now).1.Follows stepSize commands := by
  rcases follows with rests | ⟨t, before, last, rfl, heads⟩
  · rw [showAtRest rules now rests.rest]
    exact .inl rests
  · simp only [showAt, heads.moving, moveToStepper]
    exact .inr ⟨t, before, last, rfl, rfl, heads.start, heads.startAngle, heads.pen, heads.goal⟩

theorem motionHeadsFor {rules : Rules α} {now : Duration} {s : Stepper α} {c : Course α} {command : Command α}
    {t : Transition α} (rests : s.RestsAt c) (moves : Transition.ofCommand? rules now s.pose command = some t) :
    HeadsFor rules.stepSize { s with transition := some t, phase := .stepping } t c command := by
  cases command with
  | step count =>
    cases moves
    exact ⟨rfl, rests.position, rests.angle, rests.pen, by
      simp only [Course.goal?, Transition.walk, rests.position, rests.angle]⟩
  | turnLeft degrees =>
    cases moves
    exact ⟨rfl, rests.position, rests.angle, rests.pen, by
      simp only [Course.goal?, Transition.turn, rests.position, rests.angle]⟩
  | turnRight degrees =>
    cases moves
    exact ⟨rfl, rests.position, rests.angle, rests.pen, by
      simp only [Course.goal?, Transition.turn, rests.position, rests.angle]⟩
  | color _ => contradiction
  | width _ => contradiction
  | say _ => contradiction

def remark (s : Stepper α) : Command α → List (Effect α)
  | .say text => [.say s.pose.position text]
  | _ => []

theorem noteRests {rules : Rules α} {now : Duration} {s : Stepper α} {c : Course α} {command : Command α}
    (rests : s.RestsAt c) (still : Transition.ofCommand? rules now s.pose command = none) :
    RestsAt { s with pen := s.pen.after command } (c.after rules.stepSize command) ∧
      (c.after rules.stepSize command).said = c.said ++ saidIn (s.remark command) := by
  obtain ⟨rest, position, angle, pen⟩ := rests
  cases command with
  | step _ => contradiction
  | turnLeft _ => contradiction
  | turnRight _ => contradiction
  | color color =>
    refine ⟨⟨rest, position, angle, ?_⟩, (List.append_nil _).symm⟩
    simp only [Pen.after, pen, Course.after, Course.goal?]
  | width width =>
    refine ⟨⟨rest, position, angle, ?_⟩, (List.append_nil _).symm⟩
    simp only [Pen.after, pen, Course.after, Course.goal?]
  | say text =>
    refine ⟨⟨rest, position, angle, pen⟩, ?_⟩
    simp only [Course.after, Course.goal?, remark, ← position]
    rfl

structure Agrees (stepSize : α) (s : Stepper α) (commands : List (Command α)) (effects : List (Effect α)) : Prop where
  follows : s.Follows stepSize commands
  said : saidIn effects = (Course.along stepSize commands).said

theorem restAgrees {stepSize : α} {s : Stepper α} {commands : List (Command α)} {effects : List (Effect α)}
    (phase : Phase) (rests : s.RestsAt (.along stepSize commands))
    (said : saidIn effects = (Course.along stepSize commands).said) :
    Agrees stepSize { s with phase } (commands ++ []) (effects ++ []) := by
  rw [List.append_nil, List.append_nil]
  exact ⟨.inl ⟨rests.rest, rests.position, rests.angle, rests.pen⟩, said⟩

variable [Supply σ α]

/- The induction carries what was taken and said so far: each command that is no motion is moved from the supply to
it. -/
theorem takeUpToAgrees {rules : Rules α} {s : Stepper α} {commands : List (Command α)} {effects : List (Effect α)}
    (now : Duration) (fuel : Nat) (supply : σ) (rests : s.RestsAt (.along rules.stepSize commands))
    (said : saidIn effects = (Course.along rules.stepSize commands).said) :
    let next := s.takeUpTo rules now fuel supply
    Agrees rules.stepSize next.stepper (commands ++ next.taken.map (·.command)) (effects ++ next.effects) := by
  induction fuel generalizing supply s commands effects with
  | zero => exact restAgrees .waiting rests said
  | succ fuel ih =>
    rw [takeUpTo]
    split
    · exact restAgrees .waiting rests said
    · exact restAgrees .finished rests said
    · rename_i action supply _
      split
      · rename_i t moves
        have heads := motionHeadsFor rests moves
        refine ⟨.inr ⟨t, commands, action.command, rfl, heads⟩, ?_⟩
        rw [List.append_nil, said, List.map_singleton, Course.alongSnoc, Course.afterGoal heads.goal]
        rfl
      · rename_i stays
        obtain ⟨noted, remarked⟩ := noteRests rests stays
        rw [← Course.alongSnoc] at noted remarked
        have remarks : saidIn (effects ++ s.remark action.command) =
            (Course.along rules.stepSize (commands ++ [action.command])).said := by
          rw [saidAppend, said, remarked]
        have later := ih supply noted remarks
        simp only [List.append_assoc, List.singleton_append] at later
        exact later

theorem tickAgrees {rules : Rules α} {s : Stepper α} {commands : List (Command α)} {effects : List (Effect α)}
    (now : Duration) (pace : Pace) (supply : σ) (agrees : Agrees rules.stepSize s commands effects) :
    let tick := s.tick rules now pace supply
    Agrees rules.stepSize tick.stepper (commands ++ tick.taken.map (·.command)) (effects ++ tick.effects) := by
  obtain ⟨follows, said⟩ := agrees
  by_cases finished : s.phase = .finished
  · rw [tickFinished rules now pace supply finished]
    simp only [List.map_nil, List.append_nil]
    exact ⟨follows, said⟩
  · cases ended : s.isDue now || pace.accelerate with
    | false =>
      rw [tickInFlight rules now pace supply finished ended]
      refine ⟨?_, ?_⟩
      · simpa only [List.map_nil, List.append_nil] using showAtFollows rules now follows
      · simp only [saidAppend, saidShowAt, List.map_nil, List.append_nil, said]
    | true =>
      rw [tickLanding rules now pace supply finished ended]
      have landed : saidIn (effects ++ (s.land rules pace).2.2) = (Course.along rules.stepSize commands).said := by
        rw [saidAppend, saidLand, List.append_nil, said]
      have taken := takeUpToAgrees now (Supply.bound supply + 1) supply (landRests pace follows) landed
      refine ⟨showAtFollows rules now taken.follows, ?_⟩
      rw [← List.append_assoc, saidAppend, saidShowAt, List.append_nil, ← List.append_assoc]
      exact taken.said

end Stepper

/- A tick of a run, told by the instant, the speed keys, and what became of the supply since the tick before: nothing
for a script, and anything for a queue that others write to. -/
structure Beat (σ : Type) where
  now : Duration
  pace : Pace
  arrive : σ → σ

inductive Handover [Supply σ α] : σ → List (Beat σ) → List (Action α) → σ → Prop where
  | nil (supply : σ) : Handover supply [] [] supply
  | cons {beat beats taken actions} {first middle last : σ}
      (pulls : Handed (beat.arrive first) taken middle) (later : Handover middle beats actions last) :
      Handover first (beat :: beats) (taken ++ actions) last

structure Playback (σ α : Type) where
  stepper : Stepper α
  supply : σ
  actions : List (Action α) := []
  effects : List (Effect α) := []

namespace Playback

def commands (p : Playback σ α) : List (Command α) := p.actions.map (·.command)

variable [Trig α] [Supply σ α]

def after (rules : Rules α) (p : Playback σ α) (beat : Beat σ) : Playback σ α :=
  let tick := p.stepper.tick rules beat.now beat.pace (beat.arrive p.supply)
  { stepper := tick.stepper
    supply := tick.supply
    actions := p.actions ++ tick.taken
    effects := p.effects ++ tick.effects }

def run (rules : Rules α) (supply : σ) (beats : List (Beat σ)) : Playback σ α :=
  beats.foldl (after rules) { stepper := .initial, supply }

theorem afterAgrees {rules : Rules α} {p : Playback σ α} (beat : Beat σ)
    (agrees : p.stepper.Agrees rules.stepSize p.commands p.effects) :
    (p.after rules beat).stepper.Agrees rules.stepSize (p.after rules beat).commands (p.after rules beat).effects := by
  have agrees := Stepper.tickAgrees beat.now beat.pace (beat.arrive p.supply) agrees
  simpa only [commands, after, List.map_append] using agrees

theorem runAgrees (rules : Rules α) (supply : σ) (beats : List (Beat σ)) :
    let p := run rules supply beats
    p.stepper.Agrees rules.stepSize p.commands p.effects := by
  have from' (p : Playback σ α) (agrees : p.stepper.Agrees rules.stepSize p.commands p.effects) :
      let q := beats.foldl (after rules) p
      q.stepper.Agrees rules.stepSize q.commands q.effects := by
    induction beats generalizing p with
    | nil => exact agrees
    | cons beat beats ih => exact ih _ (afterAgrees beat agrees)
  exact from' _ ⟨.inl ⟨rfl, rfl, rfl, rfl⟩, rfl⟩

theorem foldlHandover (rules : Rules α) (p : Playback σ α) (beats : List (Beat σ)) :
    ∃ actions, Handover p.supply beats actions (beats.foldl (after rules) p).supply ∧
      (beats.foldl (after rules) p).actions = p.actions ++ actions := by
  induction beats generalizing p with
  | nil => exact ⟨[], .nil _, (List.append_nil _).symm⟩
  | cons beat beats ih =>
    obtain ⟨actions, later, same⟩ := ih (p.after rules beat)
    have pulls := Stepper.tickHanded rules beat.now beat.pace (beat.arrive p.supply) p.stepper
    exact ⟨_, .cons pulls later, by rw [List.foldl_cons, same, after, List.append_assoc]⟩

theorem runHandover (rules : Rules α) (supply : σ) (beats : List (Beat σ)) :
    Handover supply beats (run rules supply beats).actions (run rules supply beats).supply := by
  obtain ⟨actions, pulls, same⟩ := foldlHandover rules { stepper := .initial, supply } beats
  rw [List.nil_append] at same
  rwa [run, same]

end Playback

namespace Stepper
variable [Trig α]

def destination (s : Stepper α) : Point α × α :=
  match s.transition with
  | none => (s.pose.position, s.pose.angle)
  | some t => ((t.poseAt Scalar.one).position, (t.poseAt Scalar.one).angle)

theorem destinationOfCourse {stepSize : α} {s : Stepper α} {commands : List (Command α)}
    (follows : s.Follows stepSize commands) :
    let c := Course.along stepSize commands
    s.destination = (c.position, c.angle) ∧ s.pen = c.pen := by
  rcases follows with rests | ⟨t, before, last, rfl, heads⟩
  · simp only [destination, rests.rest, rests.position, rests.angle, rests.pen, and_self]
  · rw [Course.alongSnoc, Course.afterGoal heads.goal]
    refine ⟨?_, heads.pen⟩
    simp only [destination, heads.moving, Transition.poseAt, Course.reach, heads.start, heads.startAngle]

end Stepper

namespace Playback
variable [Trig α] [Supply σ α]

theorem runFollowsCourse (rules : Rules α) (supply : σ) (beats : List (Beat σ)) :
    let p := run rules supply beats
    Handover supply beats p.actions p.supply ∧
    p.stepper.Follows rules.stepSize p.commands ∧
    saidIn p.effects = (Course.along rules.stepSize p.commands).said ∧
    ∀ (τ : Type) [Supply τ α] (others : Rules α) (source : τ) (ticks : List (Beat τ)),
      let q := run others source ticks
      others.stepSize = rules.stepSize → q.commands = p.commands →
        q.stepper.destination = p.stepper.destination ∧ q.stepper.pen = p.stepper.pen ∧
          saidIn q.effects = saidIn p.effects := by
  intro p
  have agrees := runAgrees rules supply beats
  refine ⟨runHandover rules supply beats, agrees.follows, agrees.said, ?_⟩
  intro τ _ others source ticks q size same
  have also := runAgrees others source ticks
  rw [size] at also
  obtain ⟨place, pen⟩ := Stepper.destinationOfCourse agrees.follows
  obtain ⟨place', pen'⟩ := Stepper.destinationOfCourse also.follows
  have courses : Course.along rules.stepSize q.commands = Course.along rules.stepSize p.commands := by rw [same]
  refine ⟨?_, ?_, ?_⟩
  · exact place'.trans (courses ▸ place.symm)
  · exact pen'.trans (courses ▸ pen.symm)
  · exact also.said.trans (courses ▸ agrees.said.symm)

end Playback
end TurtleBoard
