import Mathlib.Data.List.Induction
import TurtleBoard.Proofs.Footage

/-! Trails have no gaps and the right style. A trail starts where the actor was last shown and ends where it is shown
next, and its stroke is what the commands before the motion ask for, however many ticks the motion takes. -/
namespace TurtleBoard
variable {α σ : Type}

def Command.color? : Command α → Option (Option String)
  | .color name => some name
  | _ => none

def Command.width? : Command α → Option α
  | .width pixels => some pixels
  | _ => none

def Pen.given [Scalar α] (commands : List (Command α)) : Pen α where
  color := (commands.filterMap Command.color?).getLast?.join
  width := (commands.filterMap Command.width?).getLast?.getD (Scalar.ofInt 2)

namespace Pen

theorem afterAllAppend (pen : Pen α) (before later : List (Command α)) :
    pen.afterAll (before ++ later) = (pen.afterAll before).afterAll later := List.foldl_append

theorem afterMotion (pen : Pen α) {motion : Command α} (moves : motion.isMotion = true) : pen.after motion = pen := by
  cases motion <;> first | rfl | contradiction

variable [Scalar α]

theorem givenAfter (before : List (Command α)) (command : Command α) :
    (given before).after command = given (before ++ [command]) := by
  cases command <;> simp [given, after, Command.color?, Command.width?]

theorem afterAllGiven (commands : List (Command α)) : initial.afterAll commands = given commands := by
  induction commands using List.reverseRecOn with
  | nil => rfl
  | append_singleton before last ih =>
    rw [afterAllAppend, ih, ← givenAfter]
    rfl

theorem givenMotion {motion : Command α} (moves : motion.isMotion = true) (before : List (Command α)) :
    given (before ++ [motion]) = given before := by
  rw [← givenAfter, afterMotion _ moves]

end Pen

def Effect.posed? : Effect α → Option (Point α × α)
  | .pose position angle _ => some (position, angle)
  | .trail _ _ _ | .say _ _ => none

def Effect.isRemark : Effect α → Bool
  | .say _ _ => true
  | .trail _ _ _ | .pose _ _ _ => false

def lastPosed (effects : List (Effect α)) : Option (Point α × α) := (effects.filterMap Effect.posed?).getLast?

theorem lastPosedAppend (before later : List (Effect α)) :
    lastPosed (before ++ later) = (lastPosed later).or (lastPosed before) := by
  simp only [lastPosed, List.filterMap_append, List.getLast?_append]

theorem lastPosedCons (effect : Effect α) (effects : List (Effect α)) :
    lastPosed (effect :: effects) = (lastPosed effects).or effect.posed? := by
  have apart := lastPosedAppend [effect] effects
  cases effect <;> exact apart

/- Effects in which each trail starts at the pose before it, at first the one given, and is followed by a pose at its
end. -/
inductive Joined : Option (Point α × α) → List (Effect α) → Prop where
  | nil (last : Option (Point α × α)) : Joined last []
  | pose {last : Option (Point α × α)} {place : Point α} {angle : α} {frame : Nat} {later : List (Effect α)}
      (joined : Joined (some (place, angle)) later) : Joined last (.pose place angle frame :: later)
  | say {last : Option (Point α × α)} {place : Point α} {text : String} {later : List (Effect α)}
      (joined : Joined last later) : Joined last (.say place text :: later)
  | trail {start finish : Point α} {facing angle : α} {stroke : Stroke α} {frame : Nat} {later : List (Effect α)}
      (joined : Joined (some (finish, angle)) later) :
      Joined (some (start, facing)) (.trail start finish stroke :: .pose finish angle frame :: later)

namespace Joined

theorem append {last : Option (Point α × α)} {before later : List (Effect α)} (joined : Joined last before)
    (more : Joined ((lastPosed before).or last) later) : Joined last (before ++ later) := by
  induction joined with
  | nil last => exact more
  | pose _ ih =>
    rw [lastPosedCons, Option.or_assoc] at more
    exact .pose (ih more)
  | say _ ih =>
    rw [lastPosedCons, Option.or_assoc] at more
    exact .say (ih more)
  | trail _ ih =>
    rw [lastPosedCons, lastPosedCons, Option.or_assoc, Option.or_assoc] at more
    exact .trail (ih more)

theorem remarks {effects : List (Effect α)} (said : ∀ effect ∈ effects, effect.isRemark = true)
    (last : Option (Point α × α)) : Joined last effects := by
  induction effects with
  | nil => exact .nil last
  | cons effect effects ih =>
    obtain ⟨own, others⟩ := List.forall_mem_cons.mp said
    cases effect with
    | say place text => exact .say (ih others)
    | trail _ _ _ => contradiction
    | pose _ _ _ => contradiction

theorem atTrail {last : Option (Point α × α)} {effects before later : List (Effect α)} {start finish : Point α}
    {stroke : Stroke α} (joined : Joined last effects) (cut : effects = before ++ .trail start finish stroke :: later) :
    (∃ angle, (lastPosed before).or last = some (start, angle)) ∧
      ∃ angle frame rest, later = .pose finish angle frame :: rest := by
  induction joined generalizing before with
  | nil last => cases before <;> contradiction
  | pose _ ih =>
    cases before with
    | nil => cases cut
    | cons first before =>
      obtain ⟨rfl, rest⟩ := List.cons_eq_cons.mp cut
      rw [lastPosedCons, Option.or_assoc]
      exact ih rest
  | say _ ih =>
    cases before with
    | nil => cases cut
    | cons first before =>
      obtain ⟨rfl, rest⟩ := List.cons_eq_cons.mp cut
      rw [lastPosedCons, Option.or_assoc]
      exact ih rest
  | trail _ ih =>
    -- the trail of the cut is this one, or it stands behind the pose that ends this one
    match before, cut with
    | [], cut =>
      cases cut
      exact ⟨⟨_, rfl⟩, _, _, _, rfl⟩
    | [_], cut => cases cut
    | first :: second :: before, cut =>
      obtain ⟨rfl, others⟩ := List.cons_eq_cons.mp cut
      obtain ⟨rfl, rest⟩ := List.cons_eq_cons.mp others
      rw [lastPosedCons, lastPosedCons, Option.or_assoc, Option.or_assoc]
      exact ih rest

end Joined

theorem lastPosedRemarks {effects : List (Effect α)} (said : ∀ effect ∈ effects, effect.isRemark = true) :
    lastPosed effects = none := by
  induction effects with
  | nil => rfl
  | cons effect effects ih =>
    obtain ⟨own, others⟩ := List.forall_mem_cons.mp said
    rw [lastPosedCons, ih others]
    cases effect <;> first | rfl | contradiction

theorem remarksSaid (place : Point α) (commands : List (Command α)) :
    ∀ effect ∈ remarks place commands, effect.isRemark = true := by
  intro effect mem
  obtain ⟨command, _, made⟩ := List.mem_filterMap.mp mem
  cases command <;> cases made
  rfl

section looks
variable [Scalar α] (rules : Rules α) (pen : Pen α) (old : Point α) (pose : Pose α)

theorem lastPosedLook : lastPosed (rules.look pen old pose) = some (pose.position, pose.angle) := by
  rw [Rules.look, lastPosedAppend]
  rfl

end looks

theorem Stepper.lastPosedOpening [Trig α] (rules : Rules α) (s : Stepper α) :
    lastPosed (s.opening rules) = some (s.arrival.position, s.arrival.angle) := by
  unfold Stepper.opening Stepper.arrival
  split
  · exact lastPosedLook rules s.pen s.pose.position _
  · rfl

def Drawn [Scalar α] (before : List (Command α)) (shown : List (Effect α)) (pose : Pose α) (look : List (Effect α)) :
    Prop :=
  ∃ old facing frame, lastPosed shown = some (old, facing) ∧
    look = (Pen.given before).trail old pose.position ++ [.pose pose.position pose.angle frame]

theorem Drawn.look [Scalar α] {before : List (Command α)} {shown : List (Effect α)} {old : Point α} {facing : α}
    {pen : Pen α} (rules : Rules α) (pose : Pose α) (last : lastPosed shown = some (old, facing))
    (asked : pen = Pen.given before) : Drawn before shown pose (rules.look pen old pose) := by
  rw [asked]
  exact ⟨old, facing, _, last, rfl⟩

theorem Drawn.joined [Scalar α] {before : List (Command α)} {shown look : List (Effect α)} {pose : Pose α}
    (drawn : Drawn before shown pose look) : Joined (lastPosed shown) look := by
  obtain ⟨old, facing, frame, last, rfl⟩ := drawn
  rw [last]
  unfold Pen.trail
  split
  · split
    · exact .pose (.nil _)
    · exact .trail (.nil _)
  · exact .pose (.nil _)

def Began [Trig α] (rules : Rules α) (t : Transition α) (before commands : List (Command α)) : Prop :=
  ∃ stepSize now pose motion, commands = before ++ [motion] ∧
    Transition.ofCommand? { rules with stepSize } now pose motion = some t

theorem Began.given [Trig α] {rules : Rules α} {t : Transition α} {before commands : List (Command α)}
    (began : Began rules t before commands) : Pen.given commands = Pen.given before := by
  obtain ⟨_, _, _, motion, rfl, starts⟩ := began
  exact Pen.givenMotion (startsMotion starts) before

namespace Playback
variable [Trig α]

structure Scene (rules : Rules α) (now : Duration) (p : Playback σ α) (tick : Tick σ α)
    (opening said closing : List (Effect α)) : Prop where
  whole : tick.effects = opening ++ said ++ closing
  said : ∀ effect ∈ said, effect.isRemark = true
  rests : p.stepper.transition = none →
    ∃ angle frame, opening = [.pose ((lastPosed p.effects).getD (Point.origin, Scalar.zero)).1 angle frame]
  moved : ∀ t, p.stepper.transition = some t →
    (tick.landed = none ∧ tick.stepper.transition = some t ∧ opening = []) ∨
      (tick.landed = some t ∧
        ∃ before, Began rules t before (commandsOf p.actions) ∧ Drawn before p.effects (t.poseAt Scalar.one) opening)
  ends : tick.stepper.transition = none → closing = []
  moves : ∀ t, tick.stepper.transition = some t →
    ∃ before, Began rules t before (commandsOf (p.actions ++ tick.taken)) ∧
      Drawn before (p.effects ++ opening) (t.poseAt (t.progress now)) closing
  last : lastPosed tick.effects = some (tick.stepper.pose.position, tick.stepper.pose.angle)

structure Traced (rules : Rules α) (p : Playback σ α) : Prop where
  place : (lastPosed p.effects).getD (Point.origin, Scalar.zero) = (p.stepper.pose.position, p.stepper.pose.angle)
  pen : p.stepper.pen = Pen.given (commandsOf p.actions)
  joined : Joined none p.effects
  moving : ∀ t, p.stepper.transition = some t →
    (lastPosed p.effects).isSome = true ∧ ∃ before, Began rules t before (commandsOf p.actions)

section traced
variable {rules : Rules α} {p : Playback σ α}

theorem Traced.shown {t : Transition α} (traced : p.Traced rules) (moving : p.stepper.transition = some t) :
    lastPosed p.effects = some (p.stepper.pose.position, p.stepper.pose.angle) := by
  obtain ⟨some, _⟩ := traced.moving t moving
  obtain ⟨last, shown⟩ := Option.isSome_iff_exists.mp some
  rw [shown, ← traced.place, shown, Option.getD_some]

theorem Traced.lands {t : Transition α} (traced : p.Traced rules) (current : Rules α)
    (moving : p.stepper.transition = some t) : ∃ before, Began rules t before (commandsOf p.actions) ∧
      Drawn before p.effects (t.poseAt Scalar.one) (p.stepper.opening current) := by
  obtain ⟨_, before, began⟩ := traced.moving t moving
  have pen : p.stepper.pen = Pen.given before := traced.pen.trans began.given
  have opening : p.stepper.opening current =
      current.look p.stepper.pen p.stepper.pose.position (t.poseAt Scalar.one) := by
    simp only [Stepper.opening, moving]
  rw [opening]
  exact ⟨before, began, .look current _ (traced.shown moving) pen⟩

theorem Traced.rests (traced : p.Traced rules) (current : Rules α) (rest : p.stepper.transition = none) :
    ∃ angle frame, p.stepper.opening current =
      [.pose ((lastPosed p.effects).getD (Point.origin, Scalar.zero)).1 angle frame] := by
  rw [traced.place]
  simp only [Stepper.opening, rest]
  exact ⟨_, _, rfl⟩

end traced

variable {rules : Rules α} {stepSize : α} {now : Duration} {pace : Pace} {p : Playback σ α} {tick : Tick σ α}

theorem tickScene (traced : p.Traced rules) (does : p.stepper.Does { rules with stepSize } now pace tick)
    (running : p.stepper.phase ≠ .finished) : ∃ opening said closing, p.Scene rules now tick opening said closing := by
  cases does with
  | nothing finished => contradiction
  | @shows t _ moving _ _ stepper landed taken effects _ =>
    obtain ⟨_, before, began⟩ := traced.moving t moving
    have pen : p.stepper.pen = Pen.given before := traced.pen.trans began.given
    have flying : tick.stepper.transition = some t := by rw [stepper]; exact moving
    refine ⟨[], [], tick.effects, ?_⟩
    exact {
      whole := rfl
      said := List.forall_mem_nil _
      rests := by intro rest; cases moving.symm.trans rest
      moved := by
        intro other same
        cases moving.symm.trans same
        exact .inl ⟨landed, flying, rfl⟩
      ends := by intro rest; cases flying.symm.trans rest
      moves := by
        intro other same
        cases flying.symm.trans same
        rw [taken, List.append_nil, List.append_nil, effects]
        exact ⟨before, began, .look _ _ (traced.shown moving) pen⟩
      last := by rw [effects, lastPosedLook, stepper] }
  | @begins notes action t _ _ landed taken _ starts stepper effects _ =>
    have said := remarksSaid p.stepper.arrival.position (commandsOf notes)
    have flying : tick.stepper.transition = some t := by rw [stepper]
    have began : Began rules t (commandsOf (p.actions ++ notes)) (commandsOf (p.actions ++ tick.taken)) := by
      refine ⟨stepSize, now, _, action.command, ?_, starts⟩
      rw [taken, ← List.append_assoc, commandsAppend]
      rfl
    have pen : tick.stepper.pen = Pen.given (commandsOf (p.actions ++ notes)) := by
      rw [stepper, commandsAppend, ← Pen.afterAllGiven, Pen.afterAllAppend, Pen.afterAllGiven, ← traced.pen]
    refine ⟨p.stepper.opening { rules with stepSize }, remarks p.stepper.arrival.position (commandsOf notes),
      Rules.look { rules with stepSize } tick.stepper.pen p.stepper.arrival.position (t.poseAt (t.progress now)), ?_⟩
    exact {
      whole := effects
      said := said
      rests := traced.rests _
      moved := by
        intro other moving
        exact .inr ⟨landed.trans moving, traced.lands _ moving⟩
      ends := by intro rest; cases flying.symm.trans rest
      moves := by
        intro other same
        cases flying.symm.trans same
        have opened : lastPosed (p.effects ++ p.stepper.opening { rules with stepSize }) =
            some (p.stepper.arrival.position, p.stepper.arrival.angle) := by
          rw [lastPosedAppend, Stepper.lastPosedOpening, Option.some_or]
        exact ⟨_, began, .look _ _ opened pen⟩
      last := by rw [effects, lastPosedAppend, lastPosedLook, Option.some_or, stepper] }
  | @ends phase _ _ landed _ stepper effects =>
    have said := remarksSaid p.stepper.arrival.position (commandsOf tick.taken)
    have resting : tick.stepper.transition = none := by rw [stepper]
    refine ⟨p.stepper.opening { rules with stepSize }, remarks p.stepper.arrival.position (commandsOf tick.taken), [],
      ?_⟩
    exact {
      whole := by rw [effects, List.append_nil]
      said := said
      rests := traced.rests _
      moved := by
        intro other moving
        exact .inr ⟨landed.trans moving, traced.lands _ moving⟩
      ends := by intro _; rfl
      moves := by intro other moving; cases resting.symm.trans moving
      last := by
        rw [effects, lastPosedAppend, lastPosedRemarks said, Option.none_or, Stepper.lastPosedOpening, stepper]
        rfl }

theorem tickPen (does : p.stepper.Does rules now pace tick) :
    tick.stepper.pen = p.stepper.pen.afterAll (commandsOf tick.taken) := by
  cases does with
  | nothing _ same _ taken _ _ => rw [same, taken]; rfl
  | shows _ _ _ _ stepper _ taken _ _ => rw [stepper, taken]; rfl
  | @begins notes action t _ _ _ taken _ starts stepper _ _ =>
    rw [stepper, taken, commandsAppend, Pen.afterAllAppend]
    exact (Pen.afterMotion _ (startsMotion starts)).symm
  | ends _ _ _ _ stepper _ => rw [stepper]

theorem Scene.joined {opening said closing : List (Effect α)} (scene : p.Scene rules now tick opening said closing) :
    Joined (lastPosed p.effects) tick.effects := by
  have opens : Joined (lastPosed p.effects) opening := by
    cases moving : p.stepper.transition with
    | none =>
      obtain ⟨angle, frame, rfl⟩ := scene.rests moving
      exact .pose (.nil _)
    | some t =>
      rcases scene.moved t moving with ⟨_, _, rfl⟩ | ⟨_, _, _, drawn⟩
      · exact .nil _
      · exact drawn.joined
  have closes : Joined (lastPosed (p.effects ++ opening)) closing := by
    cases moving : tick.stepper.transition with
    | none =>
      rw [scene.ends moving]
      exact .nil _
    | some t =>
      obtain ⟨_, _, drawn⟩ := scene.moves t moving
      exact drawn.joined
  rw [lastPosedAppend] at closes
  rw [scene.whole, List.append_assoc]
  refine opens.append (.append (.remarks scene.said _) ?_)
  rw [lastPosedRemarks scene.said, Option.none_or]
  exact closes

theorem tickTraced (traced : p.Traced rules) (does : p.stepper.Does { rules with stepSize } now pace tick) :
    (p.afterTick tick).Traced rules := by
  -- a tick after the end shows no pose at all, so it makes no scene and is treated apart
  by_cases finished : p.stepper.phase = .finished
  · cases does with
    | nothing _ same _ taken effects _ =>
      have still : p.afterTick tick = { p with supply := tick.supply } := by
        rw [afterTick, same, taken, effects, List.append_nil, List.append_nil]
      rw [still]
      exact ⟨traced.place, traced.pen, traced.joined, traced.moving⟩
    | shows running => contradiction
    | begins running => contradiction
    | ends running => contradiction
  · obtain ⟨opening, said, closing, scene⟩ := tickScene traced does finished
    have last : lastPosed (p.afterTick tick).effects =
        some (tick.stepper.pose.position, tick.stepper.pose.angle) := by
      rw [afterTick, lastPosedAppend, scene.last, Option.some_or]
    exact {
      place := by rw [last]; rfl
      pen := by
        rw [afterTick, commandsAppend, ← Pen.afterAllGiven, Pen.afterAllAppend, Pen.afterAllGiven, ← traced.pen]
        exact tickPen does
      joined := by
        have more : Joined ((lastPosed p.effects).or none) tick.effects := by
          rw [Option.or_none]
          exact scene.joined
        exact traced.joined.append more
      moving := by
        intro t moving
        obtain ⟨before, began, _⟩ := scene.moves t moving
        exact ⟨by rw [last, Option.isSome_some], before, began⟩ }

variable [Supply σ α]

theorem filmTraced (rules : Rules α) (supply : σ) (beats : List (α × Beat σ)) :
    (film rules supply beats).Traced rules := by
  induction beats using List.reverseRecOn with
  | nil => exact ⟨rfl, rfl, .nil none, by intro t moving; contradiction⟩
  | append_singleton beats beat ih =>
    rw [filmSnoc]
    exact tickTraced ih (tickAtDoes rules _ beat)

/- Over all that a run has shown, every trail goes from the last pose before it to the pose right after it. The next
tick shows nothing if the moves have ended, and otherwise it makes a scene. -/
theorem trailsJoin (rules : Rules α) (supply : σ) (beats : List (α × Beat σ)) :
    let p := film rules supply beats
    (∀ before start finish stroke later, p.effects = before ++ .trail start finish stroke :: later →
      (∃ facing, lastPosed before = some (start, facing)) ∧
        ∃ angle frame rest, later = .pose finish angle frame :: rest) ∧
    ∀ beat,
      Handed (beat.2.arrive p.supply) (p.tickAt rules beat).taken (p.tickAt rules beat).supply ∧
      (p.stepper.phase = .finished → (p.tickAt rules beat).effects = []) ∧
      (p.stepper.phase ≠ .finished →
        ∃ opening said closing, p.Scene rules beat.2.now (p.tickAt rules beat) opening said closing) := by
  intro p
  have traced : p.Traced rules := filmTraced rules supply beats
  refine ⟨?_, ?_⟩
  · intro before start finish stroke later cut
    have found := traced.joined.atTrail cut
    rw [Option.or_none] at found
    exact found
  · intro beat
    exact ⟨Stepper.tickHanded _ _ _ _ _, tickAtFinished rules beat, tickScene traced (tickAtDoes rules p beat)⟩

end Playback
end TurtleBoard
