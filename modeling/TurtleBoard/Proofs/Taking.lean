import TurtleBoard.Stepper

/-! What one tick of a stepper does, said once for every later proof: the supply is only pulled, and the actions that a
tick took are the ready answers of those pulls in their order. Nothing is assumed of the supply, not even its bound. -/
namespace TurtleBoard
variable {α σ : Type}

def Pull.action? : Pull α → Option (Action α)
  | .ready action => some action
  | .waiting | .done => none

inductive Handed [Supply σ α] : σ → List (Action α) → σ → Prop where
  | rest (supply : σ) : Handed supply [] supply
  | pulled {supply next last : σ} {answer : Pull α} {actions : List (Action α)}
      (pull : Supply.pull supply = (answer, next)) (later : Handed next actions last) :
      Handed supply (answer.action?.toList ++ actions) last

namespace Sequence

def left (s : Sequence α) : List (Action α) := s.actions.drop s.cursor

theorem leftSize (s : Sequence α) : s.left.length = s.size := List.length_drop

theorem pullEnded {s : Sequence α} (ended : s.left = []) : s.pull = (.done, s) := by
  have none : s.actions[s.cursor]? = none := List.getElem?_eq_none (List.drop_eq_nil_iff.mp ended)
  rw [pull, next, none]

theorem pullNext {s : Sequence α} {action : Action α} {rest : List (Action α)} (own : s.left = action :: rest) :
    s.pull = (.ready action, { s with cursor := s.cursor + 1 }) ∧ left { s with cursor := s.cursor + 1 } = rest := by
  have here : s.actions[s.cursor]? = some action := by rw [← List.head?_drop, ← left, own, List.head?_cons]
  refine ⟨by rw [pull, next, here], ?_⟩
  rw [left, ← List.tail_drop, ← left, own, List.tail_cons]

end Sequence

namespace Stepper
variable [Trig α]

@[simp] theorem moveToStepper (rules : Rules α) (pose : Pose α) (s : Stepper α) :
    (s.moveTo rules pose).1 = { s with pose } := rfl

theorem landInFlight (rules : Rules α) (pace : Pace) {s : Stepper α} {t : Transition α}
    (moving : s.transition = some t) :
    s.land rules pace =
      ({ s with pose := { t.poseAt Scalar.one with distance := Scalar.zero }, transition := none },
        if t.motion = .step && pace.latched then {} else pace, (s.moveTo rules (t.poseAt Scalar.one)).2) := by
  simp only [land, moving]
  rfl

theorem landAtRest (rules : Rules α) (pace : Pace) {s : Stepper α} (rest : s.transition = none) :
    s.land rules pace =
      ({ s with pose := { s.pose with distance := Scalar.zero }, transition := none }, pace, [s.showPose 0]) := by
  cases s
  cases rest
  rfl

theorem landPace (rules : Rules α) {pace : Pace} (s : Stepper α) (unlatched : pace.latched = false) :
    (s.land rules pace).2.1 = pace := by
  cases moving : s.transition with
  | none => rw [landAtRest rules pace moving]
  | some t => simp only [landInFlight rules pace moving, unlatched, Bool.and_false, Bool.false_eq_true, if_false]

theorem landTransition (rules : Rules α) (pace : Pace) (s : Stepper α) :
    (s.land rules pace).1.transition = none := by
  cases moving : s.transition with
  | none => rw [landAtRest rules pace moving]
  | some t => rw [landInFlight rules pace moving]

variable [Supply σ α]

theorem takeUpToHanded (rules : Rules α) (now : Duration) (fuel : Nat) (supply : σ) (s : Stepper α) :
    Handed supply (s.takeUpTo rules now fuel supply).taken (s.takeUpTo rules now fuel supply).supply := by
  induction fuel generalizing supply s with
  | zero => exact .rest supply
  | succ fuel ih =>
    rw [takeUpTo]
    split
    · exact .pulled (by assumption) (.rest _)
    · exact .pulled (by assumption) (.rest _)
    · split
      · exact .pulled (by assumption) (.rest _)
      · exact .pulled (by assumption) (ih _ _)

theorem takeUpToWake (rules : Rules α) (now : Duration) (fuel : Nat) (supply : σ) {s : Stepper α}
    (rest : s.transition = none) {wake : Wake} (asked : (s.takeUpTo rules now fuel supply).wake = some wake) :
    (s.takeUpTo rules now fuel supply).stepper.transition = none := by
  induction fuel generalizing supply s with
  | zero => exact rest
  | succ fuel ih =>
    rw [takeUpTo] at asked ⊢
    split at asked
    · exact rest
    · exact rest
    · split at asked
      · contradiction
      · exact ih _ rest asked

theorem showAtRest (rules : Rules α) (now : Duration) {s : Stepper α} (rest : s.transition = none) :
    s.showAt rules now = (s, []) := by
  simp only [showAt, rest]

theorem tickFinished (rules : Rules α) (now : Duration) (pace : Pace) (supply : σ) {s : Stepper α}
    (finished : s.phase = .finished) :
    s.tick rules now pace supply = { stepper := s, supply, pace, wake := .finished } := by
  simp only [tick, finished, if_true]

theorem tickInFlight (rules : Rules α) (now : Duration) (pace : Pace) (supply : σ) {s : Stepper α}
    (running : s.phase ≠ .finished) (early : (s.isDue now || pace.accelerate) = false) :
    s.tick rules now pace supply =
      { stepper := (s.showAt rules now).1, supply, pace, effects := (s.showAt rules now).2, wake := .nextFrame } := by
  simp only [tick, if_neg running, early]
  rfl

theorem tickLanding (rules : Rules α) (now : Duration) (pace : Pace) (supply : σ) {s : Stepper α}
    (running : s.phase ≠ .finished) (ended : (s.isDue now || pace.accelerate) = true) :
    let next := (s.land rules pace).1.takeNext rules now supply
    s.tick rules now pace supply =
      { stepper := (next.stepper.showAt rules now).1, supply := next.supply, pace := (s.land rules pace).2.1,
        landed := s.transition, taken := next.taken,
        effects := (s.land rules pace).2.2 ++ next.effects ++ (next.stepper.showAt rules now).2,
        wake := next.wake.getD .nextFrame } := by
  intro next
  simp only [tick, if_neg running, ended, if_true]
  cases asked : next.wake with
  | none => rfl
  | some wake =>
    have rest := takeUpToWake rules now _ supply (landTransition rules pace s) asked
    simp only [next, takeNext, showAtRest rules now rest, List.append_nil, Option.getD_some]

theorem tickHanded (rules : Rules α) (now : Duration) (pace : Pace) (supply : σ) (s : Stepper α) :
    Handed supply (s.tick rules now pace supply).taken (s.tick rules now pace supply).supply := by
  by_cases finished : s.phase = .finished
  · rw [tickFinished rules now pace supply finished]
    exact .rest supply
  · cases ended : s.isDue now || pace.accelerate with
    | false =>
      rw [tickInFlight rules now pace supply finished ended]
      exact .rest supply
    | true =>
      rw [tickLanding rules now pace supply finished ended]
      exact takeUpToHanded rules now _ supply _

theorem tickPace (rules : Rules α) (now : Duration) {pace : Pace} (supply : σ) (s : Stepper α)
    (unlatched : pace.latched = false) : (s.tick rules now pace supply).pace = pace := by
  by_cases finished : s.phase = .finished
  · rw [tickFinished rules now pace supply finished]
  · cases ended : s.isDue now || pace.accelerate with
    | false => rw [tickInFlight rules now pace supply finished ended]
    | true =>
      rw [tickLanding rules now pace supply finished ended]
      exact landPace rules s unlatched

theorem takeUpToFinished (rules : Rules α) (now : Duration) (fuel : Nat) (supply : σ) (s : Stepper α) :
    (s.takeUpTo rules now fuel supply).stepper.phase = .finished ↔
      (s.takeUpTo rules now fuel supply).wake = some .finished := by
  induction fuel generalizing supply s with
  | zero => simp only [takeUpTo, reduceCtorEq, Option.some.injEq]
  | succ fuel ih =>
    rw [takeUpTo]
    split
    · simp only [reduceCtorEq, Option.some.injEq]
    · simp only
    · split
      · simp only [reduceCtorEq]
      · exact ih _ _

theorem showAtPhase (rules : Rules α) (now : Duration) (s : Stepper α) : (s.showAt rules now).1.phase = s.phase := by
  rw [showAt]
  split <;> rfl

theorem showAtTransition (rules : Rules α) (now : Duration) (s : Stepper α) :
    (s.showAt rules now).1.transition = s.transition := by
  rw [showAt]
  split <;> rfl

theorem tickWake (rules : Rules α) (now : Duration) (pace : Pace) (supply : σ) (s : Stepper α) :
    (s.tick rules now pace supply).wake = .finished ↔ (s.tick rules now pace supply).stepper.phase = .finished := by
  by_cases finished : s.phase = .finished
  · simp only [tickFinished rules now pace supply finished, finished]
  · cases ended : s.isDue now || pace.accelerate with
    | false => simp only [tickInFlight rules now pace supply finished ended, showAtPhase, finished, reduceCtorEq]
    | true =>
      rw [tickLanding rules now pace supply finished ended]
      simp only [showAtPhase, takeNext, takeUpToFinished]
      cases ((s.land rules pace).1.takeUpTo rules now (Supply.bound supply + 1) supply).wake <;> simp

end Stepper

def Effect.isPose : Effect α → Bool
  | .pose _ _ _ => true
  | .trail _ _ _ | .say _ _ => false

namespace Stepper
variable [Trig α]

theorem moveToPoses (rules : Rules α) (pose : Pose α) (s : Stepper α) :
    (s.moveTo rules pose).2.any Effect.isPose = true := by
  rw [moveTo, List.any_append]
  exact Bool.or_true _

theorem landPoses (rules : Rules α) (pace : Pace) (s : Stepper α) :
    (s.land rules pace).2.2.any Effect.isPose = true := by
  cases moving : s.transition with
  | none => rw [landAtRest rules pace moving]; rfl
  | some t => rw [landInFlight rules pace moving]; exact moveToPoses rules _ s

theorem tickPoses [Supply σ α] (rules : Rules α) (now : Duration) (pace : Pace) (supply : σ) (s : Stepper α) :
    (s.tick rules now pace supply).effects.any Effect.isPose = decide (s.phase ≠ .finished) := by
  by_cases finished : s.phase = .finished
  · rw [tickFinished rules now pace supply finished]
    simp only [finished, ne_eq, not_true_eq_false, decide_false, List.any_nil]
  · rw [decide_eq_true finished]
    cases ended : s.isDue now || pace.accelerate with
    | false =>
      obtain ⟨early, _⟩ := Bool.or_eq_false_iff.mp ended
      rw [tickInFlight rules now pace supply finished ended, showAt]
      cases moving : s.transition with
      | none => simp only [isDue, moving, Bool.true_eq_false] at early
      | some t => exact moveToPoses rules _ s
    | true =>
      simp only [tickLanding rules now pace supply finished ended, List.any_append, landPoses, Bool.true_or]

end Stepper

def Stepper.Taking.mapSupply {τ : Type} (f : σ → τ) (t : Stepper.Taking σ α) : Stepper.Taking τ α :=
  { stepper := t.stepper, supply := f t.supply, taken := t.taken, effects := t.effects, wake := t.wake }

def Tick.mapSupply {τ : Type} (f : σ → τ) (t : Tick σ α) : Tick τ α :=
  { stepper := t.stepper, supply := f t.supply, pace := t.pace, landed := t.landed, taken := t.taken,
    effects := t.effects, wake := t.wake }

/- A supply that answers like another one, under a change of its form, makes no difference to a tick. -/
namespace Stepper
variable [Trig α] {τ : Type} [Supply σ α] [Supply τ α] {f : σ → τ}

theorem takeUpToMap (pulls : ∀ supply, Supply.pull (f supply) = ((Supply.pull supply).1, f (Supply.pull supply).2))
    (rules : Rules α) (now : Duration) (fuel : Nat) (supply : σ) (s : Stepper α) :
    s.takeUpTo rules now fuel (f supply) = (s.takeUpTo rules now fuel supply).mapSupply f := by
  induction fuel generalizing supply s with
  | zero => rfl
  | succ fuel ih =>
    rw [takeUpTo, takeUpTo, pulls]
    rcases Supply.pull supply with ⟨action | _ | _, next⟩
    · cases moves : Transition.ofCommand? rules now s.pose action.command with
      | some t => simp only [moves]; rfl
      | none => simp only [moves, ih]; rfl
    · rfl
    · rfl

theorem tickMap (pulls : ∀ supply, Supply.pull (f supply) = ((Supply.pull supply).1, f (Supply.pull supply).2))
    (bounds : ∀ supply, Supply.bound (f supply) = Supply.bound supply)
    (rules : Rules α) (now : Duration) (pace : Pace) (supply : σ) (s : Stepper α) :
    s.tick rules now pace (f supply) = (s.tick rules now pace supply).mapSupply f := by
  by_cases finished : s.phase = .finished
  · rw [tickFinished rules now pace _ finished, tickFinished rules now pace _ finished]
    rfl
  · cases ended : s.isDue now || pace.accelerate with
    | false =>
      rw [tickInFlight rules now pace _ finished ended, tickInFlight rules now pace _ finished ended]
      rfl
    | true =>
      rw [tickLanding rules now pace _ finished ended, tickLanding rules now pace _ finished ended]
      simp only [takeNext, bounds, takeUpToMap pulls]
      rfl

end Stepper
end TurtleBoard
