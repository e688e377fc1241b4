import Mathlib.Data.List.Induction
import TurtleBoard.Proofs.Pulls

/-! The phases of a stepper. A stepper is stepping exactly while a motion is in flight, and otherwise it has covered no
distance. It is idle before its first tick and never again, and finished only after its supply was done; from then on a
tick changes nothing, shows nothing and pulls nothing. -/
namespace TurtleBoard
variable {α σ : Type}

namespace Duration

theorem leAdd (a b : Duration) : a ≤ a + b := by
  have top := a.le_max
  change a.nanos ≤ min (a.nanos + b.nanos) maxNanos
  omega

end Duration

structure Transition.Sound (t : Transition α) : Prop where
  timely : t.startTime ≤ t.targetTime
  stays : t.motion = .turn → t.target = t.start

theorem startsSound [Trig α] {rules : Rules α} {now : Duration} {pose : Pose α} {command : Command α}
    {t : Transition α} (starts : Transition.ofCommand? rules now pose command = some t) : t.Sound := by
  cases command with
  | step count => cases starts; exact ⟨now.leAdd _, nofun⟩
  | turnLeft degrees => cases starts; exact ⟨now.leAdd _, fun _ => rfl⟩
  | turnRight degrees => cases starts; exact ⟨now.leAdd _, fun _ => rfl⟩
  | color _ => contradiction
  | width _ => contradiction
  | say _ => contradiction

namespace Stepper
variable [Trig α]

structure Coherent (s : Stepper α) : Prop where
  steps : s.phase = .stepping ↔ s.transition.isSome = true
  rests : s.transition = none → s.pose.distance = Scalar.zero
  sound : ∀ t, s.transition = some t → t.Sound

theorem initialCoherent : (initial : Stepper α).Coherent where
  steps := ⟨nofun, nofun⟩
  rests := fun _ => rfl
  sound := nofun

omit [Trig α] in
theorem Reports.phases {pollInterval : Duration} {s : Stepper α} {wake : Wake} (reports : s.Reports pollInterval wake) :
    (s.phase = .stepping ↔ s.transition.isSome = true) ∧ s.phase ≠ .idle := by
  cases reports with
  | steps phase moving => exact ⟨iff_of_true phase moving, by rw [phase]; exact nofun⟩
  | waits phase rest | ends phase rest =>
    rw [phase, rest]
    exact ⟨iff_of_false nofun nofun, nofun⟩

theorem tickRests {rules : Rules α} {now : Duration} {pace : Pace} {s : Stepper α} {tick : Tick σ α}
    (coherent : s.Coherent) (does : s.Does rules now pace tick) (rest : tick.stepper.transition = none) :
    tick.stepper.pose.distance = Scalar.zero := by
  cases does with
  | nothing _ same =>
    rw [same] at rest ⊢
    exact coherent.rests rest
  | shows _ moving _ _ stepper => rw [stepper, moving] at rest; contradiction
  | begins _ _ _ _ _ _ stepper => rw [stepper] at rest; contradiction
  | ends _ _ _ _ stepper => rw [stepper]; rfl

theorem tickSound {rules : Rules α} {now : Duration} {pace : Pace} {s : Stepper α} {tick : Tick σ α}
    (coherent : s.Coherent) (does : s.Does rules now pace tick) {t : Transition α}
    (moving : tick.stepper.transition = some t) : t.Sound := by
  cases does with
  | nothing _ same => rw [same] at moving; exact coherent.sound t moving
  | shows _ _ _ _ stepper => rw [stepper] at moving; exact coherent.sound t moving
  | begins _ _ _ _ _ starts stepper =>
    rw [stepper] at moving
    cases moving
    exact startsSound starts
  | ends _ _ _ _ stepper => rw [stepper] at moving; contradiction

variable [Supply σ α]

theorem tickCoherent (rules : Rules α) (now : Duration) (pace : Pace) (supply : σ) {s : Stepper α}
    (coherent : s.Coherent) :
    (s.tick rules now pace supply).stepper.Coherent ∧ (s.tick rules now pace supply).stepper.phase ≠ .idle := by
  have does := tickDoes rules now pace supply s
  obtain ⟨steps, started⟩ := (tickReports rules now pace supply coherent.steps.mpr).phases
  exact ⟨⟨steps, tickRests coherent does, fun _ => tickSound coherent does⟩, started⟩

/- Induction on the fuel: each action taken is one more pull, and nothing but the last answer can be the end. -/
theorem takeUpToDone (rules : Rules α) (now : Duration) (fuel : Nat) (supply : σ) (s : Stepper α)
    (finished : (s.takeUpTo rules now fuel supply).stepper.phase = .finished) :
    ∃ last, Handed supply (s.takeUpTo rules now fuel supply).taken last ∧
      Supply.pull last = (.done, (s.takeUpTo rules now fuel supply).supply) := by
  induction fuel generalizing supply s with
  | zero => contradiction
  | succ fuel ih =>
    rw [takeUpTo] at finished ⊢
    split at finished
    · contradiction
    · rename_i pull
      exact ⟨supply, .rest supply, pull⟩
    · rename_i pull
      split at finished
      · contradiction
      · obtain ⟨last, handed, done⟩ := ih _ _ finished
        exact ⟨last, .pulled pull handed, done⟩

theorem tickDone {rules : Rules α} {now : Duration} {pace : Pace} {supply : σ} {s : Stepper α}
    (running : s.phase ≠ .finished) (finished : (s.tick rules now pace supply).stepper.phase = .finished) :
    ∃ last, Handed supply (s.tick rules now pace supply).taken last ∧
      Supply.pull last = (.done, (s.tick rules now pace supply).supply) := by
  cases ended : s.isDue now || pace.accelerate with
  | false =>
    rw [tickInFlight rules now pace supply running ended] at finished
    exact absurd ((showAtPhase rules now s).symm.trans finished) running
  | true =>
    rw [tickLanding rules now pace supply running ended] at finished ⊢
    exact takeUpToDone rules now _ supply _ ((showAtPhase rules now _).symm.trans finished)

end Stepper

namespace Playback

def untouched (p : Playback σ α) (beats : List (α × Beat σ)) : Playback σ α :=
  { p with supply := beats.foldl (fun supply beat => beat.2.arrive supply) p.supply }

variable [Trig α] [Supply σ α]

theorem filmCoherent (rules : Rules α) (supply : σ) (beats : List (α × Beat σ)) :
    (film rules supply beats).stepper.Coherent := by
  induction beats using List.reverseRecOn with
  | nil => exact Stepper.initialCoherent
  | append_singleton beats beat ih =>
    rw [filmSnoc]
    exact (Stepper.tickCoherent _ _ _ _ ih).1

theorem filmRests (rules : Rules α) (supply : σ) (beats : List (α × Beat σ)) :
    (film rules supply beats).stepper.transition = none →
      (film rules supply beats).stepper.pose.distance = Scalar.zero := (filmCoherent rules supply beats).rests

theorem filmIdle (rules : Rules α) (supply : σ) (beats : List (α × Beat σ)) :
    (film rules supply beats).stepper.phase = .idle ↔ beats = [] := by
  cases beats using List.reverseRecOn with
  | nil => exact iff_of_true rfl rfl
  | append_singleton beats beat =>
    rw [filmSnoc]
    have started := (Stepper.tickCoherent { rules with stepSize := beat.1 } beat.2.now beat.2.pace
      (beat.2.arrive (film rules supply beats).supply) (filmCoherent rules supply beats)).2
    exact iff_of_false started (List.append_ne_nil_of_right_ne_nil _ (List.cons_ne_nil _ _))

theorem tickAtDone (rules : Rules α) {p : Playback σ α} (beat : α × Beat σ) (finished : p.stepper.phase = .finished) :
    p.tickAt rules beat =
      { stepper := p.stepper, supply := beat.2.arrive p.supply, pace := beat.2.pace, wake := .finished } :=
  Stepper.tickFinished _ _ _ _ finished

theorem filmDone (rules : Rules α) (supply : σ) (beats later : List (α × Beat σ))
    (finished : (film rules supply beats).stepper.phase = .finished) :
    film rules supply (beats ++ later) = (film rules supply beats).untouched later := by
  induction later using List.reverseRecOn with
  | nil => rw [List.append_nil]; rfl
  | append_singleton later beat ih =>
    have ended : ((film rules supply beats).untouched later).stepper.phase = .finished := finished
    rw [← List.append_assoc, filmSnoc, ih, tickAtDone rules beat ended]
    simp only [afterTick, untouched, List.foldl_append, List.foldl_cons, List.foldl_nil, List.append_nil]

theorem phasesCohere (rules : Rules α) (supply : σ) (beats : List (α × Beat σ)) :
    let p := film rules supply beats
    p.stepper.Coherent ∧ (p.stepper.phase = .idle ↔ beats = []) ∧
      (∀ beat, p.stepper.phase ≠ .finished → (p.tickAt rules beat).stepper.phase = .finished →
        ∃ last, Handed (beat.2.arrive p.supply) (p.tickAt rules beat).taken last ∧
          Supply.pull last = (.done, (p.tickAt rules beat).supply)) ∧
      (p.stepper.phase = .finished → ∀ later : List (α × Beat σ),
        let q := film rules supply (beats ++ later)
        q = p.untouched later ∧ ∀ beat, q.tickAt rules beat =
          { stepper := p.stepper, supply := beat.2.arrive q.supply, pace := beat.2.pace, wake := .finished }) := by
  intro p
  refine ⟨filmCoherent rules supply beats, filmIdle rules supply beats, fun beat running => Stepper.tickDone running,
    fun finished later => ?_⟩
  intro q
  have same : q = p.untouched later := filmDone rules supply beats later finished
  have stepper : q.stepper = p.stepper := by rw [same]; rfl
  refine ⟨same, fun beat => ?_⟩
  rw [tickAtDone rules beat (stepper ▸ finished), stepper]

end Playback
end TurtleBoard
