import TurtleBoard.Proofs.Playback

/-! All that one tick of a stepper can do, with what it shows: nothing at all, a look at the motion in flight, or the
end of that motion and the commands up to the next one. Runs are led back to these cases; the size of the board, and
with it the step size, may change from tick to tick. -/
namespace TurtleBoard
variable {α σ : Type}

def Command.isMotion : Command α → Bool
  | .step _ | .turnLeft _ | .turnRight _ => true
  | .color _ | .width _ | .say _ => false

theorem ofCommandMotion [Trig α] (rules : Rules α) (now : Duration) (pose : Pose α) (command : Command α) :
    (Transition.ofCommand? rules now pose command).isSome = command.isMotion := by
  cases command <;> rfl

theorem startsMotion [Trig α] {rules : Rules α} {now : Duration} {pose : Pose α} {command : Command α}
    {t : Transition α} (starts : Transition.ofCommand? rules now pose command = some t) : command.isMotion = true := by
  rw [← ofCommandMotion rules now pose, starts, Option.isSome_some]

def Pen.afterAll (pen : Pen α) (commands : List (Command α)) : Pen α := commands.foldl Pen.after pen

def Pen.trail [Scalar α] (pen : Pen α) (old new : Point α) : List (Effect α) :=
  match pen.color with
  | some color => if old == new then [] else [.trail old new ⟨color, pen.width⟩]
  | none => []

def Rules.look [Scalar α] (rules : Rules α) (pen : Pen α) (old : Point α) (pose : Pose α) : List (Effect α) :=
  pen.trail old pose.position ++
    [.pose pose.position pose.angle (Walk.frame pose.distance rules.walkFrameDistance rules.walkFrames)]

def remarks (place : Point α) (commands : List (Command α)) : List (Effect α) :=
  commands.filterMap fun
    | .say text => some (.say place text)
    | _ => none

def commandsOf (actions : List (Action α)) : List (Command α) := actions.map (·.command)

@[simp] theorem commandsAppend (before later : List (Action α)) :
    commandsOf (before ++ later) = commandsOf before ++ commandsOf later := List.map_append

namespace Stepper
variable [Trig α]

def arrival (s : Stepper α) : Pose α :=
  match s.transition with
  | some t => t.poseAt Scalar.one
  | none => s.pose

def landed (s : Stepper α) : Stepper α :=
  { s with pose := { s.arrival with distance := Scalar.zero }, transition := none }

def opening (rules : Rules α) (s : Stepper α) : List (Effect α) :=
  match s.transition with
  | some t => rules.look s.pen s.pose.position (t.poseAt Scalar.one)
  | none => [s.showPose 0]

theorem landParts (rules : Rules α) (pace : Pace) (s : Stepper α) :
    (s.land rules pace).1 = s.landed ∧ (s.land rules pace).2.2 = s.opening rules := by
  cases moving : s.transition with
  | none =>
    rw [landAtRest rules pace moving]
    simp only [landed, arrival, opening, moving, and_self]
  | some t =>
    rw [landInFlight rules pace moving]
    simp only [landed, arrival, opening, moving]
    exact ⟨trivial, rfl⟩

theorem showAtMoving (rules : Rules α) (now : Duration) {s : Stepper α} {t : Transition α}
    (moving : s.transition = some t) :
    s.showAt rules now =
      ({ s with pose := t.poseAt (t.progress now) }, rules.look s.pen s.pose.position (t.poseAt (t.progress now))) := by
  have same : s.showAt rules now = s.moveTo rules (t.poseAt (t.progress now)) := by simp only [showAt, moving]
  exact same.trans rfl

variable [Supply σ α]

inductive Takes (rules : Rules α) (now : Duration) (s : Stepper α) (next : Taking σ α) : Prop where
  | begins {notes : List (Action α)} {action : Action α} {t : Transition α} (taken : next.taken = notes ++ [action])
      (still : ∀ note ∈ notes, note.command.isMotion = false)
      (starts : Transition.ofCommand? rules now s.pose action.command = some t)
      (stepper : next.stepper =
        { s with pen := s.pen.afterAll (commandsOf notes), transition := some t, phase := .stepping })
      (effects : next.effects = remarks s.pose.position (commandsOf notes)) (wake : next.wake = none)
  | ends {phase : Phase} {wake : Wake} (still : ∀ note ∈ next.taken, note.command.isMotion = false)
      (stepper : next.stepper = { s with pen := s.pen.afterAll (commandsOf next.taken), phase })
      (effects : next.effects = remarks s.pose.position (commandsOf next.taken)) (wake : next.wake = some wake)

omit [Supply σ α] in
theorem Takes.note {rules : Rules α} {now : Duration} {s : Stepper α} {next : Taking σ α} {note : Action α}
    {said : List (Effect α)} (still : note.command.isMotion = false)
    (told : said = remarks s.pose.position [note.command])
    (later : Takes rules now { s with pen := s.pen.after note.command } next) :
    Takes rules now s { next with taken := note :: next.taken, effects := said ++ next.effects } := by
  subst told
  cases later with
  | @begins notes action t taken stillLater starts stepper effects wake =>
    have more : ∀ n ∈ note :: notes, n.command.isMotion = false := by
      intro n mem
      rcases List.mem_cons.mp mem with rfl | mem
      · exact still
      · exact stillLater n mem
    have all : note :: next.taken = (note :: notes) ++ [action] := by rw [taken, List.cons_append]
    refine .begins all more starts stepper ?_ wake
    simp only [effects, remarks, commandsOf, List.map_cons, ← List.filterMap_append, List.singleton_append]
  | @ends phase wake stillLater stepper effects asked =>
    have more : ∀ n ∈ note :: next.taken, n.command.isMotion = false := by
      intro n mem
      rcases List.mem_cons.mp mem with rfl | mem
      · exact still
      · exact stillLater n mem
    refine .ends more stepper ?_ asked
    simp only [effects, remarks, commandsOf, List.map_cons, ← List.filterMap_append, List.singleton_append]

theorem takeUpToTakes (rules : Rules α) (now : Duration) (fuel : Nat) (supply : σ) (s : Stepper α) :
    Takes rules now s (s.takeUpTo rules now fuel supply) := by
  induction fuel generalizing supply s with
  | zero => exact .ends (List.forall_mem_nil _) rfl rfl rfl
  | succ fuel ih =>
    rw [takeUpTo]
    split
    · exact .ends (List.forall_mem_nil _) rfl rfl rfl
    · exact .ends (List.forall_mem_nil _) rfl rfl rfl
    · rename_i action supply _
      have motion := ofCommandMotion rules now s.pose action.command
      split
      · rename_i t starts
        have alone : [action] = [] ++ [action] := rfl
        exact .begins alone (List.forall_mem_nil _) starts rfl rfl rfl
      · rename_i stays
        rw [stays, Option.isSome_none] at motion
        refine .note motion.symm ?_ (ih supply { s with pen := s.pen.after action.command })
        cases action.command <;> rfl

/- All that a tick can do. It lands at most the motion in flight and begins at most one, which is the last command that
it takes. -/
inductive Does (rules : Rules α) (now : Duration) (pace : Pace) (s : Stepper α) (tick : Tick σ α) : Prop where
  | nothing (finished : s.phase = .finished) (same : tick.stepper = s) (landed : tick.landed = none)
      (taken : tick.taken = []) (effects : tick.effects = []) (wake : tick.wake = .finished)
  | shows {t : Transition α} (running : s.phase ≠ .finished) (moving : s.transition = some t)
      (early : t.isDue now = false) (slow : pace.accelerate = false)
      (stepper : tick.stepper = { s with pose := t.poseAt (t.progress now) }) (landed : tick.landed = none)
      (taken : tick.taken = []) (effects : tick.effects = rules.look s.pen s.pose.position (t.poseAt (t.progress now)))
      (wake : tick.wake = .nextFrame)
  | begins {notes : List (Action α)} {action : Action α} {t : Transition α} (running : s.phase ≠ .finished)
      (ended : (s.isDue now || pace.accelerate) = true) (landed : tick.landed = s.transition)
      (taken : tick.taken = notes ++ [action]) (still : ∀ note ∈ notes, note.command.isMotion = false)
      (starts : Transition.ofCommand? rules now s.landed.pose action.command = some t)
      (stepper : tick.stepper =
        ⟨t.poseAt (t.progress now), s.pen.afterAll (commandsOf notes), some t, .stepping⟩)
      (effects : tick.effects = s.opening rules ++ remarks s.arrival.position (commandsOf notes) ++
        rules.look tick.stepper.pen s.arrival.position (t.poseAt (t.progress now)))
      (wake : tick.wake = .nextFrame)
  | ends {phase : Phase} (running : s.phase ≠ .finished) (ended : (s.isDue now || pace.accelerate) = true)
      (landed : tick.landed = s.transition) (still : ∀ note ∈ tick.taken, note.command.isMotion = false)
      (stepper : tick.stepper = ⟨s.landed.pose, s.pen.afterAll (commandsOf tick.taken), none, phase⟩)
      (effects : tick.effects = s.opening rules ++ remarks s.arrival.position (commandsOf tick.taken))

theorem tickDoes (rules : Rules α) (now : Duration) (pace : Pace) (supply : σ) (s : Stepper α) :
    Does rules now pace s (s.tick rules now pace supply) := by
  by_cases finished : s.phase = .finished
  · rw [tickFinished rules now pace supply finished]
    exact .nothing finished rfl rfl rfl rfl rfl
  · cases ended : s.isDue now || pace.accelerate with
    | false =>
      obtain ⟨early, slow⟩ := Bool.or_eq_false_iff.mp ended
      rw [tickInFlight rules now pace supply finished ended]
      cases moving : s.transition with
      | none => simp only [isDue, moving, Bool.true_eq_false] at early
      | some t =>
        simp only [isDue, moving] at early
        rw [showAtMoving rules now moving]
        exact .shows finished moving early slow rfl rfl rfl rfl rfl
    | true =>
      obtain ⟨landed, opening⟩ := landParts rules pace s
      rw [tickLanding rules now pace supply finished ended, landed, opening]
      have takes := takeUpToTakes rules now (Supply.bound supply + 1) supply s.landed
      rw [takeNext]
      generalize s.landed.takeUpTo rules now (Supply.bound supply + 1) supply = next at takes
      cases takes with
      | begins taken still starts stepper effects wake =>
        refine .begins finished ended rfl taken still starts ?_ ?_ ?_
        · simp only [stepper]
          rfl
        · simp only [stepper, effects]
          rfl
        · simp only [wake, Option.getD_none]
      | @ends phase wake still stepper effects asked =>
        have shown : (next.stepper.showAt rules now).1 =
            ⟨s.landed.pose, s.pen.afterAll (commandsOf next.taken), none, phase⟩ := by
          simp only [stepper]
          rfl
        refine .ends finished ended rfl still shown ?_
        · have rest : next.stepper.transition = none := by rw [stepper]; rfl
          simp only [showAtRest rules now rest, effects, List.append_nil]
          rfl

end Stepper

namespace Playback
variable [Trig α] [Supply σ α]

def tickAt (rules : Rules α) (p : Playback σ α) (beat : α × Beat σ) : Tick σ α :=
  p.stepper.tick { rules with stepSize := beat.1 } beat.2.now beat.2.pace (beat.2.arrive p.supply)

theorem tickAtDoes (rules : Rules α) (p : Playback σ α) (beat : α × Beat σ) :
    p.stepper.Does { rules with stepSize := beat.1 } beat.2.now beat.2.pace (p.tickAt rules beat) :=
  Stepper.tickDoes _ _ _ _ _

theorem tickAtFinished (rules : Rules α) {p : Playback σ α} (beat : α × Beat σ)
    (finished : p.stepper.phase = .finished) : (p.tickAt rules beat).effects = [] := by
  rw [tickAt, Stepper.tickFinished _ _ _ _ finished]

def film (rules : Rules α) (supply : σ) (beats : List (α × Beat σ)) : Playback σ α :=
  beats.foldl (fun p beat => p.after { rules with stepSize := beat.1 } beat.2) { stepper := .initial, supply }

def afterTick (p : Playback σ α) (tick : Tick σ α) : Playback σ α where
  stepper := tick.stepper
  supply := tick.supply
  actions := p.actions ++ tick.taken
  effects := p.effects ++ tick.effects

theorem filmSnoc (rules : Rules α) (supply : σ) (beats : List (α × Beat σ)) (beat : α × Beat σ) :
    film rules supply (beats ++ [beat]) =
      (film rules supply beats).afterTick ((film rules supply beats).tickAt rules beat) := by
  simp only [film, List.foldl_append, List.foldl_cons, List.foldl_nil]
  rfl

end Playback
end TurtleBoard
