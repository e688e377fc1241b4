import TurtleBoard.Proofs.Footage

/-! The pulls of one tick. The loop that takes actions has no bound of its own: it runs until an action moves the actor,
or until a pull is not ready. Where such a loop is no longer than the bound of the supply, the taking of a stepper is
what the loop comes to. The tick reports what it left: a motion in flight, a wait, or the end. -/
namespace TurtleBoard.Stepper
variable {α σ : Type} [Trig α] [Supply σ α]

inductive Loop (rules : Rules α) (now : Duration) : σ → Stepper α → Nat → Taking σ α → Prop where
  | waits {supply left : σ} {s : Stepper α} (pull : Supply.pull supply = (.waiting, left)) :
      Loop rules now supply s 1 ⟨{ s with phase := .waiting }, left, [], [], some (.after rules.pollInterval)⟩
  | ends {supply left : σ} {s : Stepper α} (pull : Supply.pull supply = (.done, left)) :
      Loop rules now supply s 1 ⟨{ s with phase := .finished }, left, [], [], some .finished⟩
  | begins {supply left : σ} {s : Stepper α} {action : Action α} {t : Transition α}
      (pull : Supply.pull supply = (.ready action, left))
      (starts : Transition.ofCommand? rules now s.pose action.command = some t) :
      Loop rules now supply s 1 ⟨{ s with transition := some t, phase := .stepping }, left, [action], [], none⟩
  | notes {supply left : σ} {s : Stepper α} {action : Action α} {pulls : Nat} {later : Taking σ α}
      (pull : Supply.pull supply = (.ready action, left))
      (stays : Transition.ofCommand? rules now s.pose action.command = none)
      (rest : Loop rules now left { s with pen := s.pen.after action.command } pulls later) :
      Loop rules now supply s (pulls + 1)
        { later with
          taken := action :: later.taken
          effects := remarks s.pose.position [action.command] ++ later.effects }

theorem Loop.taking {rules : Rules α} {now : Duration} {supply : σ} {s : Stepper α} {pulls : Nat} {next : Taking σ α}
    (loop : Loop rules now supply s pulls next) {fuel : Nat} (enough : pulls ≤ fuel) :
    s.takeUpTo rules now fuel supply = next := by
  induction loop generalizing fuel with
  | waits pull | ends pull =>
    obtain ⟨fuel, rfl⟩ := Nat.exists_eq_add_of_le' enough
    simp only [takeUpTo, pull]
  | begins pull starts =>
    obtain ⟨fuel, rfl⟩ := Nat.exists_eq_add_of_le' enough
    simp only [takeUpTo, pull, starts]
  | @notes supply left s action pulls later pull stays rest ih =>
    obtain ⟨fuel, rfl⟩ := Nat.exists_eq_add_of_le' (Nat.le_trans (Nat.le_add_left 1 pulls) enough)
    simp only [takeUpTo, pull, stays, ih (Nat.le_of_succ_le_succ enough)]
    cases action.command <;> rfl

def concluded (rules : Rules α) (now : Duration) (pace : Pace) (s : Stepper α) (next : Taking σ α) : Tick σ α where
  stepper := (next.stepper.showAt rules now).1
  supply := next.supply
  pace := (s.land rules pace).2.1
  landed := s.transition
  taken := next.taken
  effects := (s.land rules pace).2.2 ++ next.effects ++ (next.stepper.showAt rules now).2
  wake := next.wake.getD .nextFrame

/- A tick with the number of its pulls: those of one loop where a motion is over, and otherwise none. -/
inductive Ticks (rules : Rules α) (now : Duration) (pace : Pace) (supply : σ) (s : Stepper α) :
    Nat → Tick σ α → Prop where
  | finished (ended : s.phase = .finished) :
      Ticks rules now pace supply s 0 { stepper := s, supply, pace, wake := .finished }
  | inFlight (running : s.phase ≠ .finished) (early : (s.isDue now || pace.accelerate) = false) :
      Ticks rules now pace supply s 0
        { stepper := (s.showAt rules now).1, supply, pace, effects := (s.showAt rules now).2, wake := .nextFrame }
  | lands {pulls : Nat} {next : Taking σ α} (running : s.phase ≠ .finished)
      (due : (s.isDue now || pace.accelerate) = true) (loop : Loop rules now supply s.landed pulls next) :
      Ticks rules now pace supply s pulls (s.concluded rules now pace next)

theorem Loop.unique {rules : Rules α} {now : Duration} {supply : σ} {s : Stepper α} {pulls others : Nat}
    {next other : Taking σ α} (loop : Loop rules now supply s pulls next)
    (again : Loop rules now supply s others other) : others = pulls ∧ other = next := by
  induction loop generalizing others other with
  | waits pull | ends pull =>
    cases again <;> cases pull.symm.trans (by assumption)
    exact ⟨rfl, rfl⟩
  | begins pull starts =>
    cases again with
    | waits second | ends second => cases pull.symm.trans second
    | begins second same =>
      cases pull.symm.trans second
      cases starts.symm.trans same
      exact ⟨rfl, rfl⟩
    | notes second stays =>
      cases pull.symm.trans second
      cases starts.symm.trans stays
  | notes pull stays rest ih =>
    cases again with
    | waits second | ends second => cases pull.symm.trans second
    | begins second starts =>
      cases pull.symm.trans second
      cases starts.symm.trans stays
    | notes second same more =>
      cases pull.symm.trans second
      obtain ⟨rfl, rfl⟩ := ih more
      exact ⟨rfl, rfl⟩

theorem Ticks.unique {rules : Rules α} {now : Duration} {pace : Pace} {supply : σ} {s : Stepper α} {pulls others : Nat}
    {tick other : Tick σ α} (made : Ticks rules now pace supply s pulls tick)
    (again : Ticks rules now pace supply s others other) : others = pulls ∧ other = tick := by
  cases made with
  | finished ended =>
    cases again with
    | finished => exact ⟨rfl, rfl⟩
    | inFlight running | lands running => exact absurd ended running
  | inFlight running early =>
    cases again with
    | finished ended => exact absurd ended running
    | inFlight => exact ⟨rfl, rfl⟩
    | lands _ due => cases early.symm.trans due
  | lands running due loop =>
    cases again with
    | finished ended => exact absurd ended running
    | inFlight _ early => cases early.symm.trans due
    | lands _ _ more =>
      obtain ⟨rfl, rfl⟩ := loop.unique more
      exact ⟨rfl, rfl⟩

theorem tickMade {rules : Rules α} {now : Duration} {supply : σ} {s : Stepper α} {pulls : Nat} {next : Taking σ α}
    (loop : Loop rules now supply s.landed pulls next) (enough : pulls ≤ Supply.bound supply + 1) (pace : Pace) :
    ∃ made, made ≤ pulls ∧ Ticks rules now pace supply s made (s.tick rules now pace supply) ∧
      (s.tick rules now pace supply = s.concluded rules now pace next ∨
        (s.tick rules now pace supply).supply = supply ∧ ∀ delay,
          (s.tick rules now pace supply).wake ≠ .after delay) := by
  by_cases finished : s.phase = .finished
  · rw [tickFinished rules now pace supply finished]
    exact ⟨0, Nat.zero_le _, .finished finished, .inr ⟨rfl, nofun⟩⟩
  · cases ended : s.isDue now || pace.accelerate with
    | false =>
      rw [tickInFlight rules now pace supply finished ended]
      exact ⟨0, Nat.zero_le _, .inFlight finished ended, .inr ⟨rfl, nofun⟩⟩
    | true =>
      have taking : (s.land rules pace).1.takeNext rules now supply = next := by
        rw [takeNext, (landParts rules pace s).1]
        exact loop.taking enough
      have same : s.tick rules now pace supply = s.concluded rules now pace next := by
        rw [tickLanding rules now pace supply finished ended, taking]
        rfl
      rw [same]
      exact ⟨pulls, Nat.le_refl _, .lands finished ended loop, .inl rfl⟩

inductive Reports (pollInterval : Duration) (s : Stepper α) : Wake → Prop where
  | steps (phase : s.phase = .stepping) (moving : s.transition.isSome = true) : Reports pollInterval s .nextFrame
  | waits (phase : s.phase = .waiting) (rest : s.transition = none) : Reports pollInterval s (.after pollInterval)
  | ends (phase : s.phase = .finished) (rest : s.transition = none) : Reports pollInterval s .finished

theorem takeUpToReports (rules : Rules α) (now : Duration) (fuel : Nat) (supply : σ) {s : Stepper α}
    (rest : s.transition = none) :
    (s.takeUpTo rules now fuel supply).stepper.Reports rules.pollInterval
      ((s.takeUpTo rules now fuel supply).wake.getD .nextFrame) := by
  induction fuel generalizing supply s with
  | zero => exact .waits rfl rest
  | succ fuel ih =>
    rw [takeUpTo]
    split
    · exact .waits rfl rest
    · exact .ends rfl rest
    · split
      · exact .steps rfl rfl
      · exact ih _ rest

def Steady (s : Stepper α) : Prop := s.transition.isSome = true → s.phase = .stepping

theorem Reports.shown {pollInterval : Duration} {s : Stepper α} {wake : Wake} (reports : s.Reports pollInterval wake)
    (rules : Rules α) (now : Duration) : (s.showAt rules now).1.Reports pollInterval wake := by
  have phase := showAtPhase rules now s
  have transition := showAtTransition rules now s
  cases reports with
  | steps own moving => exact .steps (phase.trans own) (by rw [transition]; exact moving)
  | waits own rest => exact .waits (phase.trans own) (transition.trans rest)
  | ends own rest => exact .ends (phase.trans own) (transition.trans rest)

omit [Trig α] in
theorem Reports.steady {pollInterval : Duration} {s : Stepper α} {wake : Wake}
    (reports : s.Reports pollInterval wake) : s.Steady := by
  intro moving
  cases reports with
  | steps phase _ => exact phase
  | waits _ rest | ends _ rest =>
    rw [rest] at moving
    contradiction

theorem tickReports (rules : Rules α) (now : Duration) (pace : Pace) (supply : σ) {s : Stepper α} (steady : s.Steady) :
    let tick := s.tick rules now pace supply
    tick.stepper.Reports rules.pollInterval tick.wake := by
  by_cases finished : s.phase = .finished
  · rw [tickFinished rules now pace supply finished]
    refine .ends finished (Option.not_isSome_iff_eq_none.mp fun moving => ?_)
    cases finished.symm.trans (steady moving)
  · cases ended : s.isDue now || pace.accelerate with
    | false =>
      obtain ⟨early, _⟩ := Bool.or_eq_false_iff.mp ended
      rw [tickInFlight rules now pace supply finished ended]
      have moving : s.transition.isSome = true := by
        cases moving : s.transition with
        | none => simp only [isDue, moving, Bool.true_eq_false] at early
        | some t => rfl
      exact Reports.shown (.steps (steady moving) moving) rules now
    | true =>
      rw [tickLanding rules now pace supply finished ended]
      exact (takeUpToReports rules now _ supply (landTransition rules pace s)).shown rules now

end TurtleBoard.Stepper
