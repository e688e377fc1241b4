import TurtleBoard.Proofs.Trails

/-! What is shown of one motion. The tick that begins a motion takes a last look at it, every tick that finds it in
flight and leaves it there takes one look, and the tick that lands it takes the first of its looks at the end. Between
two looks the actor is nowhere else, so each look starts where the one before it ended. -/
namespace TurtleBoard
variable {α σ : Type}

def Effect.isTrail : Effect α → Bool
  | .trail _ _ _ => true
  | .say _ _ | .pose _ _ _ => false

def firstLook (effects : List (Effect α)) : List (Effect α) :=
  effects.takeWhile (!·.isPose) ++ (effects.dropWhile (!·.isPose)).take 1

def lastLook (effects : List (Effect α)) : List (Effect α) :=
  match effects.reverse with
  | [] => []
  | last :: before => (before.takeWhile Effect.isTrail).reverse ++ [last]

theorem firstLookFirst (effects : List (Effect α)) : firstLook effects <+: effects := by
  have start : firstLook effects <+: effects.takeWhile (!·.isPose) ++ effects.dropWhile (!·.isPose) :=
    (List.prefix_append_right_inj _).mpr (List.take_prefix 1 _)
  rwa [List.takeWhile_append_dropWhile] at start

theorem lastLookLast (effects : List (Effect α)) : lastLook effects <:+ effects := by
  rw [lastLook]
  split
  · exact List.nil_suffix
  · rename_i last before reversed
    rw [← List.reverse_prefix, reversed, List.reverse_append, List.reverse_reverse]
    exact List.cons_prefix_cons.mpr ⟨rfl, List.takeWhile_prefix _⟩

section looks
variable [Scalar α]

theorem trailTrails (pen : Pen α) (old new : Point α) : ∀ effect ∈ pen.trail old new, effect.isTrail = true := by
  intro effect mem
  unfold Pen.trail at mem
  split at mem
  · split at mem
    · contradiction
    · rw [List.mem_singleton.mp mem]
      rfl
  · contradiction

theorem firstLookOpens (rules : Rules α) (pen : Pen α) (old : Point α) (pose : Pose α) (later : List (Effect α)) :
    firstLook (rules.look pen old pose ++ later) = rules.look pen old pose := by
  have before : ∀ effect ∈ pen.trail old pose.position, (!effect.isPose) = true := by
    intro effect mem
    have trail := trailTrails pen old pose.position effect mem
    cases effect <;> first | rfl | contradiction
  rw [firstLook, Rules.look, List.append_assoc, List.takeWhile_append_of_pos before,
    List.dropWhile_append_of_pos before]
  simp [Effect.isPose]

theorem lastLookCloses (rules : Rules α) (pen : Pen α) (old : Point α) (pose : Pose α) {before : List (Effect α)}
    (apart : ∀ effect, before.getLast? = some effect → effect.isTrail = false) :
    lastLook (before ++ rules.look pen old pose) = rules.look pen old pose := by
  have trails : ∀ effect ∈ (pen.trail old pose.position).reverse, effect.isTrail = true := by
    intro effect mem
    exact trailTrails pen old pose.position effect (List.mem_reverse.mp mem)
  have rest : before.reverse.takeWhile Effect.isTrail = [] := by
    cases reversed : before.reverse with
    | nil => rfl
    | cons effect others =>
      have last : before.getLast? = some effect := by rw [List.getLast?_eq_head?_reverse, reversed, List.head?_cons]
      rw [List.takeWhile_cons, apart effect last]
      rfl
  rw [lastLook, Rules.look, List.reverse_append, List.reverse_append, List.reverse_singleton, List.singleton_append,
    List.cons_append]
  simp only [List.takeWhile_append_of_pos trails, rest, List.append_nil, List.reverse_reverse]

inductive Looks (pen : Pen α) (t : Transition α) : Point α → List α → List (Effect α) → Prop where
  | nil (old : Point α) : Looks pen t old [] []
  | look {old : Point α} {fraction : α} {fractions : List α} {looks : List (Effect α)} (rules : Rules α)
      (later : Looks pen t (t.poseAt fraction).position fractions looks) :
      Looks pen t old (fraction :: fractions) (rules.look pen old (t.poseAt fraction) ++ looks)

theorem Looks.single (rules : Rules α) (pen : Pen α) (t : Transition α) (old : Point α) (fraction : α) :
    Looks pen t old [fraction] (rules.look pen old (t.poseAt fraction)) := by
  have look : Looks pen t old [fraction] (rules.look pen old (t.poseAt fraction) ++ []) := .look rules (.nil _)
  rwa [List.append_nil] at look

def Transition.fractions (t : Transition α) (nows : List Duration) (landed : Bool) : List α :=
  nows.map t.progress ++ if landed then [Scalar.one] else []

end looks

section starts
variable [Trig α]

theorem startsThere {rules : Rules α} {now : Duration} {pose : Pose α} {command : Command α} {t : Transition α}
    (starts : Transition.ofCommand? rules now pose command = some t) :
    t.start = pose.position ∧ t.startTime = now := by
  cases command with
  | step count => cases starts; exact ⟨rfl, rfl⟩
  | turnLeft degrees => cases starts; exact ⟨rfl, rfl⟩
  | turnRight degrees => cases starts; exact ⟨rfl, rfl⟩
  | color _ => contradiction
  | width _ => contradiction
  | say _ => contradiction

end starts

namespace Playback
variable [Trig α] [Supply σ α]

def flight (rules : Rules α) (p : Playback σ α) : List (α × Beat σ) → List (Effect α) × Bool
  | [] => ([], false)
  | beat :: beats =>
      let tick := p.tickAt rules beat
      if tick.landed.isSome then (firstLook tick.effects, true)
      else
        let view := (p.afterTick tick).flight rules beats
        (tick.effects ++ view.1, view.2)

def showing (rules : Rules α) (p : Playback σ α) (beat : α × Beat σ) (later : List (α × Beat σ)) :
    List (Effect α) × Bool :=
  let tick := p.tickAt rules beat
  let view := (p.afterTick tick).flight rules later
  (lastLook tick.effects ++ view.1, view.2)

def goesOn (rules : Rules α) (p : Playback σ α) (beats : List (α × Beat σ)) : Playback σ α :=
  beats.foldl (fun p beat => p.after { rules with stepSize := beat.1 } beat.2) p

theorem goesOnEffects (rules : Rules α) (p : Playback σ α) (beats : List (α × Beat σ)) :
    p.effects <+: (p.goesOn rules beats).effects := by
  induction beats generalizing p with
  | nil => exact List.prefix_rfl
  | cons beat beats ih => exact (List.prefix_append _ _).trans (ih (p.afterTick (p.tickAt rules beat)))

theorem flightShown (rules : Rules α) (p : Playback σ α) (beats : List (α × Beat σ)) :
    p.effects ++ (p.flight rules beats).1 <+: (p.goesOn rules beats).effects := by
  induction beats generalizing p with
  | nil =>
    rw [flight, List.append_nil]
    exact List.prefix_rfl
  | cons beat beats ih =>
    have rest := goesOnEffects rules (p.afterTick (p.tickAt rules beat)) beats
    rw [flight]
    dsimp only
    split
    · exact ((List.prefix_append_right_inj _).mpr (firstLookFirst _)).trans rest
    · rw [← List.append_assoc]
      exact ih (p.afterTick (p.tickAt rules beat))

theorem showingShown (rules : Rules α) (supply : σ) (beats : List (α × Beat σ)) (beat : α × Beat σ)
    (later : List (α × Beat σ)) :
    ((film rules supply beats).showing rules beat later).1 <:+:
      (film rules supply (beats ++ beat :: later)).effects := by
  have whole : film rules supply (beats ++ beat :: later) =
      ((film rules supply beats).afterTick ((film rules supply beats).tickAt rules beat)).goesOn rules later := by
    simp only [film, List.foldl_append, List.foldl_cons]
    rfl
  generalize film rules supply beats = p at whole ⊢
  obtain ⟨before, split⟩ := lastLookLast (p.tickAt rules beat).effects
  obtain ⟨after, rest⟩ := flightShown rules (p.afterTick (p.tickAt rules beat)) later
  have recorded : (p.afterTick (p.tickAt rules beat)).effects =
      p.effects ++ (before ++ lastLook (p.tickAt rules beat).effects) := congrArg (p.effects ++ ·) split.symm
  refine ⟨p.effects ++ before, after, ?_⟩
  rw [whole, ← rest, recorded, showing]
  simp only [List.append_assoc]

variable {rules : Rules α} {p : Playback σ α} {t : Transition α}

theorem landsWhenDue {beat : α × Beat σ} (running : p.stepper.phase ≠ .finished)
    (moving : p.stepper.transition = some t) (slow : beat.2.pace.accelerate = false) :
    (p.tickAt rules beat).landed = some t ↔ t.isDue beat.2.now = true := by
  have due : p.stepper.isDue beat.2.now = t.isDue beat.2.now := by simp only [Stepper.isDue, moving]
  cases tickAtDoes rules p beat with
  | nothing finished => contradiction
  | @shows own _ same early _ _ landed =>
    obtain rfl : t = own := Option.some.inj (moving.symm.trans same)
    rw [landed, early]
    exact iff_of_false (Option.some_ne_none t).symm Bool.false_ne_true
  | begins _ ended landed | ends _ ended landed =>
    rw [slow, Bool.or_false, due] at ended
    exact iff_of_true (landed.trans moving) ended

/- Induction on the beats: the motion stays the same, and the actor is where the last look was, until it has landed. -/
theorem flightLooks (beats : List (α × Beat σ)) (running : p.stepper.phase ≠ .finished)
    (moving : p.stepper.transition = some t) :
    let view := p.flight rules beats
    ∃ nows, nows <+: beats.map (·.2.now) ∧ (view.2 = false → nows = beats.map (·.2.now)) ∧
      Looks p.stepper.pen t p.stepper.pose.position (t.fractions nows view.2) view.1 := by
  induction beats generalizing p with
  | nil => exact ⟨[], List.prefix_rfl, fun _ => rfl, .nil _⟩
  | cons beat beats ih =>
    have opening : p.stepper.opening { rules with stepSize := beat.1 } =
        Rules.look { rules with stepSize := beat.1 } p.stepper.pen p.stepper.pose.position (t.poseAt Scalar.one) := by
      simp only [Stepper.opening, moving]
    cases tickAtDoes rules p beat with
    | nothing finished => contradiction
    | @shows own _ same _ _ stepper landed _ effects _ =>
      obtain rfl : t = own := Option.some.inj (moving.symm.trans same)
      have next : (p.afterTick (p.tickAt rules beat)).stepper =
          { p.stepper with pose := t.poseAt (t.progress beat.2.now) } := stepper
      obtain ⟨nows, early, all, later⟩ := ih (p := p.afterTick (p.tickAt rules beat)) (by rw [next]; exact running)
        (by rw [next]; exact moving)
      rw [flight, if_neg (by rw [landed]; exact Bool.false_ne_true), effects]
      refine ⟨beat.2.now :: nows, List.cons_prefix_cons.mpr ⟨rfl, early⟩, ?_, ?_⟩
      · intro flying
        rw [List.map_cons, all flying]
      · rw [next] at later
        exact .look _ later
    | begins _ _ landed _ _ _ _ effects _ =>
      rw [flight, if_pos (by rw [landed, moving]; rfl), effects, List.append_assoc, opening, firstLookOpens]
      exact ⟨[], List.nil_prefix, fun still => absurd still.symm Bool.false_ne_true, .single _ _ _ _ _⟩
    | ends _ _ landed _ _ effects =>
      rw [flight, if_pos (by rw [landed, moving]; rfl), effects, opening, firstLookOpens]
      exact ⟨[], List.nil_prefix, fun still => absurd still.symm Bool.false_ne_true, .single _ _ _ _ _⟩

theorem lastLookBegins (rules : Rules α) (s : Stepper α) (pen : Pen α) (place : Point α) (commands : List (Command α))
    (old : Point α) (pose : Pose α) :
    lastLook (s.opening rules ++ remarks place commands ++ rules.look pen old pose) = rules.look pen old pose := by
  refine lastLookCloses rules pen old pose ?_
  intro effect last
  cases said : (remarks place commands).getLast? with
  | some remark =>
    rw [List.getLast?_append, said, Option.some_or] at last
    cases last
    have remark := remarksSaid place commands effect (List.mem_of_getLast? said)
    cases effect <;> first | rfl | contradiction
  | none =>
    rw [List.getLast?_append, said, Option.none_or] at last
    have posed : ∃ place angle frame, (s.opening rules).getLast? = some (.pose place angle frame) := by
      unfold Stepper.opening
      split
      · exact ⟨_, _, _, List.getLast?_concat⟩
      · exact ⟨_, _, _, rfl⟩
    obtain ⟨_, _, _, posed⟩ := posed
    rw [posed] at last
    cases last
    rfl

theorem showingLooks {beat : α × Beat σ} (later : List (α × Beat σ)) (began : (p.tickAt rules beat).taken ≠ [])
    (moving : (p.tickAt rules beat).stepper.transition = some t) :
    let view := p.showing rules beat later
    t.startTime = beat.2.now ∧ ∃ nows, nows <+: later.map (·.2.now) ∧ (view.2 = false → nows = later.map (·.2.now)) ∧
      Looks (p.tickAt rules beat).stepper.pen t t.start (t.fractions (beat.2.now :: nows) view.2) view.1 := by
  cases tickAtDoes rules p beat with
  | nothing _ _ _ taken => contradiction
  | shows _ _ _ _ _ _ taken => contradiction
  | ends _ _ _ _ stepper => rw [stepper] at moving; contradiction
  | @begins _ _ own _ _ _ _ _ starts stepper effects _ =>
    have flying : (p.tickAt rules beat).stepper.transition = some own := congrArg Stepper.transition stepper
    obtain rfl : t = own := Option.some.inj (moving.symm.trans flying)
    obtain ⟨start, startTime⟩ := startsThere starts
    have running : (p.afterTick (p.tickAt rules beat)).stepper.phase ≠ .finished := by
      rw [afterTick, stepper]
      exact Phase.noConfusion
    obtain ⟨nows, early, all, looks⟩ := flightLooks later running moving
    have position : (p.afterTick (p.tickAt rules beat)).stepper.pose = _ := congrArg Stepper.pose stepper
    rw [position] at looks
    have closing := lastLookBegins { rules with stepSize := beat.1 } p.stepper (p.tickAt rules beat).stepper.pen
      p.stepper.arrival.position
    refine ⟨startTime, nows, early, all, ?_⟩
    rw [showing, effects, closing, start]
    exact .look _ looks

end Playback
end TurtleBoard
