import Mathlib.Data.List.Induction
import TurtleBoard.Proofs.Footage

/-! The pace of an actor that plays a script. Each tick lands the motion in flight or leaves it as it is, and begins at
most one. So the moves end no earlier than one tick after as many ticks as there are motions, and just then if every
tick is accelerated. If none is, a motion lands at the first tick at or after its target time, and none begins before
the motions ahead of it have had their time. -/
namespace TurtleBoard
variable {α : Type}

def Command.lasts? [Scalar α] (delay : Duration) : Command α → Option Duration
  | .step count => some (delay.times count)
  | .turnLeft _ | .turnRight _ => some delay
  | .color _ | .width _ | .say _ => none

def timesOf [Scalar α] (delay : Duration) (actions : List (Action α)) : List Duration :=
  actions.filterMap fun action => action.command.lasts? delay

@[simp] theorem timesAppend [Scalar α] (delay : Duration) (before later : List (Action α)) :
    timesOf delay (before ++ later) = timesOf delay before ++ timesOf delay later := List.filterMap_append

theorem timesStill [Scalar α] (delay : Duration) {notes : List (Action α)}
    (still : ∀ note ∈ notes, note.command.isMotion = false) : timesOf delay notes = [] := by
  rw [timesOf, List.filterMap_eq_nil_iff]
  intro note mem
  have rests := still note mem
  cases command : note.command <;> rw [command] at rests <;> first | rfl | contradiction

theorem startsLasting [Trig α] {rules : Rules α} {now : Duration} {pose : Pose α} {action : Action α} {t : Transition α}
    (starts : Transition.ofCommand? rules now pose action.command = some t) : ∃ time,
      timesOf rules.stepDelay [action] = [time] ∧ t.startTime = now ∧ t.targetTime = now + time := by
  obtain ⟨command, raw⟩ := action
  cases command with
  | step count => cases starts; exact ⟨_, rfl, rfl, rfl⟩
  | turnLeft degrees => cases starts; exact ⟨_, rfl, rfl, rfl⟩
  | turnRight degrees => cases starts; exact ⟨_, rfl, rfl, rfl⟩
  | color _ => contradiction
  | width _ => contradiction
  | say _ => contradiction

namespace Duration

theorem addLeAdd {a b : Duration} (le : a ≤ b) (c : Duration) : a + c ≤ b + c := by
  change a.nanos ≤ b.nanos at le
  change min (a.nanos + c.nanos) maxNanos ≤ min (b.nanos + c.nanos) maxNanos
  omega

end Duration

namespace Stepper

theorem handedScript {script left : Sequence α} {actions : List (Action α)} (handed : Handed script actions left) :
    actions ++ left.left = script.left := by
  induction handed with
  | rest => rfl
  | @pulled script _ _ _ _ pull later ih =>
    change script.pull = _ at pull
    cases own : script.left with
    | nil =>
      rw [Sequence.pullEnded own] at pull
      cases pull
      exact ih.trans own
    | cons action rest =>
      obtain ⟨ready, next⟩ := Sequence.pullNext own
      rw [ready] at pull
      cases pull
      rw [List.append_assoc, ih, next]
      rfl

variable [Trig α]

theorem takeUpToScript (rules : Rules α) (now : Duration) (fuel : Nat) (script : Sequence α) (s : Stepper α)
    (enough : script.left.length < fuel) :
    let next := s.takeUpTo rules now fuel script
    next.stepper.phase = .finished ∧ next.supply.left = [] ∨ next.stepper.transition.isSome = true := by
  induction fuel generalizing script s with
  | zero => contradiction
  | succ fuel ih =>
    have pull : Supply.pull script = script.pull := rfl
    rw [takeUpTo, pull]
    cases own : script.left with
    | nil =>
      rw [Sequence.pullEnded own]
      exact .inl ⟨rfl, own⟩
    | cons action rest =>
      obtain ⟨ready, next⟩ := Sequence.pullNext own
      rw [ready]
      simp only
      split
      · exact .inr rfl
      · rw [own, List.length_cons] at enough
        exact ih _ _ (next ▸ Nat.lt_of_succ_lt_succ enough)

theorem tickScript (rules : Rules α) (now : Duration) (pace : Pace) (script : Sequence α) {s : Stepper α}
    (running : s.phase ≠ .finished) :
    let tick := s.tick rules now pace script
    tick.stepper.phase = .finished ∧ tick.supply.left = [] ∨ tick.stepper.transition.isSome = true := by
  cases ended : s.isDue now || pace.accelerate with
  | false =>
    obtain ⟨early, _⟩ := Bool.or_eq_false_iff.mp ended
    rw [tickInFlight rules now pace script running ended]
    simp only [showAtTransition]
    cases moving : s.transition with
    | none => simp only [isDue, moving, Bool.true_eq_false] at early
    | some t => exact .inr rfl
  | true =>
    rw [tickLanding rules now pace script running ended]
    simp only [showAtPhase, showAtTransition]
    exact takeUpToScript rules now _ script _ (Nat.lt_succ_of_le (Nat.le_of_eq script.leftSize))

end Stepper

structure Pulse (α : Type) where
  stepSize : α
  now : Duration
  pace : Pace

namespace Pulse

def beat (pulse : Pulse α) : α × Beat (Sequence α) := (pulse.stepSize, ⟨pulse.now, pulse.pace, id⟩)

def Fast (pulse : Pulse α) : Prop := pulse.pace = ⟨true, false⟩

def Slow (pulse : Pulse α) : Prop := pulse.pace.accelerate = false

def first : List (Pulse α) → Duration
  | [] => .zero
  | pulse :: _ => pulse.now

theorem firstAppend {pulses : List (Pulse α)} (some : pulses ≠ []) (pulse : Pulse α) :
    first (pulses ++ [pulse]) = first pulses := by
  cases pulses with
  | nil => contradiction
  | cons _ _ => rfl

end Pulse

namespace Playback
variable [Trig α]

def playing (rules : Rules α) (script : List (Action α)) (pulses : List (Pulse α)) : Playback (Sequence α) α :=
  film rules (Sequence.ofActions script) (pulses.map Pulse.beat)

theorem playingSnoc (rules : Rules α) (script : List (Action α)) (pulses : List (Pulse α)) (pulse : Pulse α) :
    playing rules script (pulses ++ [pulse]) =
      (playing rules script pulses).afterTick ((playing rules script pulses).tickAt rules pulse.beat) := by
  rw [playing, List.map_append, List.map_singleton, filmSnoc]
  rfl

/- How far a run over some ticks has come. Of the motions that have begun, one may still be in flight, unless the moves
have ended. -/
structure OnTime (rules : Rules α) (script : List (Action α)) (pulses : List (Pulse α))
    (p : Playback (Sequence α) α) : Prop where
  order : p.actions ++ p.supply.left = script
  ended : p.stepper.phase = .finished → p.stepper.transition = none ∧ p.supply.left = [] ∧
    (timesOf rules.stepDelay p.actions).length < pulses.length
  rests : p.stepper.transition = none → p.stepper.phase ≠ .finished → pulses = [] ∧ p.actions = []
  begun : (timesOf rules.stepDelay p.actions).length ≤ pulses.length
  fast : (∀ each ∈ pulses, each.Fast) → p.stepper.phase ≠ .finished →
    (timesOf rules.stepDelay p.actions).length = pulses.length
  slow : (∀ each ∈ pulses, each.Slow) → ∀ t, p.stepper.transition = some t → ∃ before time,
    timesOf rules.stepDelay p.actions = before ++ [time] ∧ t.targetTime = t.startTime + time ∧
      before.foldl (· + ·) (Pulse.first pulses) ≤ t.startTime

section step
variable {rules : Rules α} {stepSize : α} {script : List (Action α)} {pulses : List (Pulse α)} {pulse : Pulse α}
  {p : Playback (Sequence α) α} {tick : Tick (Sequence α) α}

theorem OnTime.flying (onTime : p.OnTime rules script pulses) {t : Transition α}
    (moving : p.stepper.transition = some t) (slow : ∀ each ∈ pulses, each.Slow) : pulses ≠ [] := by
  obtain ⟨before, time, times, _⟩ := onTime.slow slow t moving
  have begun := onTime.begun
  rw [times, List.length_append, List.length_singleton] at begun
  intro none
  rw [none, List.length_nil] at begun
  contradiction

theorem OnTime.follows (onTime : p.OnTime rules script pulses) (running : p.stepper.phase ≠ .finished)
    (slow : ∀ each ∈ pulses, each.Slow) (due : p.stepper.isDue pulse.now = true) :
    (timesOf rules.stepDelay p.actions).foldl (· + ·) (Pulse.first (pulses ++ [pulse])) ≤ pulse.now := by
  cases moving : p.stepper.transition with
  | none =>
    obtain ⟨rfl, none⟩ := onTime.rests moving running
    rw [none]
    exact Nat.le_refl _
  | some t =>
    obtain ⟨before, time, times, target, earlier⟩ := onTime.slow slow t moving
    have reached : t.targetTime ≤ pulse.now := by
      simp only [Stepper.isDue, moving] at due
      exact of_decide_eq_true due
    -- the motion in flight is the last of the times; it began after the others and has reached its target
    rw [Pulse.firstAppend (onTime.flying moving slow), times, List.foldl_append, List.foldl_cons, List.foldl_nil]
    have later := Duration.addLeAdd earlier time
    rw [← target] at later
    exact Nat.le_trans later reached

theorem OnTime.finishes (onTime : p.OnTime rules script pulses)
    (order : p.actions ++ tick.taken ++ tick.supply.left = script) (rest : tick.stepper.transition = none)
    (ended : tick.stepper.phase = .finished) (left : tick.supply.left = [])
    (still : timesOf rules.stepDelay tick.taken = []) :
    (p.afterTick tick).OnTime rules script (pulses ++ [pulse]) := by
  have begun := onTime.begun
  have same : timesOf rules.stepDelay (p.actions ++ tick.taken) = timesOf rules.stepDelay p.actions := by
    rw [timesAppend, still, List.append_nil]
  exact {
    order := order
    ended := by
      intro _
      rw [afterTick, same, List.length_append]
      exact ⟨rest, left, Nat.lt_succ_of_le begun⟩
    rests := by intro _ running; exact absurd ended running
    begun := by
      rw [afterTick, same, List.length_append]
      exact Nat.le_succ_of_le begun
    fast := by intro _ running; exact absurd ended running
    slow := by intro _ t moving; cases rest.symm.trans moving }

theorem OnTime.goesOn (onTime : p.OnTime rules script pulses)
    (order : p.actions ++ tick.taken ++ tick.supply.left = script) {t : Transition α}
    (moving : p.stepper.transition = some t) (running : tick.stepper.phase ≠ .finished)
    (flying : tick.stepper.transition = some t) (taken : tick.taken = []) (slow : pulse.pace.accelerate = false) :
    (p.afterTick tick).OnTime rules script (pulses ++ [pulse]) where
  order := order
  ended := by intro finished; exact absurd finished running
  rests := by intro rest; cases flying.symm.trans rest
  begun := by
    rw [afterTick, taken, List.append_nil, List.length_append]
    exact Nat.le_succ_of_le onTime.begun
  fast := by
    intro fast
    rw [fast pulse (List.mem_append_right _ (List.mem_singleton_self _))] at slow
    contradiction
  slow := by
    intro slow other same
    have earlier := (List.forall_mem_append.mp slow).1
    rw [afterTick, taken, List.append_nil, Pulse.firstAppend (onTime.flying moving earlier)]
    exact onTime.slow earlier other (moving.trans (flying.symm.trans same))

theorem OnTime.begins (onTime : p.OnTime rules script pulses)
    (order : p.actions ++ tick.taken ++ tick.supply.left = script) {t : Transition α} {time : Duration}
    (before : p.stepper.phase ≠ .finished) (running : tick.stepper.phase ≠ .finished)
    (due : (p.stepper.isDue pulse.now || pulse.pace.accelerate) = true) (flying : tick.stepper.transition = some t)
    (lasts : timesOf rules.stepDelay tick.taken = [time]) (start : t.startTime = pulse.now)
    (target : t.targetTime = pulse.now + time) : (p.afterTick tick).OnTime rules script (pulses ++ [pulse]) := by
  have times : timesOf rules.stepDelay (p.actions ++ tick.taken) = timesOf rules.stepDelay p.actions ++ [time] := by
    rw [timesAppend, lasts]
  exact {
    order := order
    ended := by intro finished; exact absurd finished running
    rests := by intro rest; cases flying.symm.trans rest
    begun := by
      rw [afterTick, times, List.length_append, List.length_append]
      exact Nat.succ_le_succ onTime.begun
    fast := by
      intro fast _
      have earlier := onTime.fast (List.forall_mem_append.mp fast).1 before
      rw [afterTick, times, List.length_append, List.length_append, earlier]
      rfl
    slow := by
      intro slow other same
      cases flying.symm.trans same
      have own := slow pulse (List.mem_append_right _ (List.mem_singleton_self _))
      rw [own, Bool.or_false] at due
      refine ⟨_, time, times, by rw [target, start], ?_⟩
      rw [start]
      exact onTime.follows before (List.forall_mem_append.mp slow).1 due }

theorem doesOnTime (onTime : p.OnTime rules script pulses)
    (does : p.stepper.Does { rules with stepSize } pulse.now pulse.pace tick)
    (order : p.actions ++ tick.taken ++ tick.supply.left = script)
    (complete : p.stepper.phase ≠ .finished →
      tick.stepper.phase = .finished ∧ tick.supply.left = [] ∨ tick.stepper.transition.isSome = true) :
    (p.afterTick tick).OnTime rules script (pulses ++ [pulse]) := by
  cases does with
  | nothing finished same _ taken _ _ =>
    obtain ⟨rest, none, _⟩ := onTime.ended finished
    have left : tick.supply.left = [] := by
      have earlier := onTime.order
      rw [none, List.append_nil, ← order, taken, List.append_nil] at earlier
      exact List.self_eq_append_right.mp earlier
    exact onTime.finishes order (by rw [same]; exact rest) (by rw [same]; exact finished) left (by rw [taken]; rfl)
  | shows running moving _ slow stepper _ taken _ _ =>
    exact onTime.goesOn order moving (by rw [stepper]; exact running) (by rw [stepper]; exact moving) taken slow
  | begins running due _ taken still starts stepper _ _ =>
    obtain ⟨time, lasts, start, target⟩ := startsLasting starts
    have times : timesOf rules.stepDelay tick.taken = [time] := by
      rw [taken, timesAppend, timesStill _ still, List.nil_append, lasts]
    have going : tick.stepper.phase ≠ .finished := by rw [stepper]; exact Phase.noConfusion
    exact onTime.begins order running going due (by rw [stepper]) times start target
  | ends running _ _ still stepper _ =>
    have rest : tick.stepper.transition = none := by rw [stepper]
    rcases complete running with ⟨ended, left⟩ | moving
    · exact onTime.finishes order rest ended left (timesStill _ still)
    · rw [rest] at moving
      contradiction

end step

theorem tickOnTime {rules : Rules α} {script : List (Action α)} {pulses : List (Pulse α)}
    {p : Playback (Sequence α) α} (onTime : p.OnTime rules script pulses) (pulse : Pulse α) :
    (p.afterTick (p.tickAt rules pulse.beat)).OnTime rules script (pulses ++ [pulse]) := by
  have handed : Handed p.supply (p.tickAt rules pulse.beat).taken (p.tickAt rules pulse.beat).supply :=
    Stepper.tickHanded _ _ _ _ _
  refine doesOnTime onTime (tickAtDoes rules p pulse.beat) ?_ (Stepper.tickScript _ _ _ _)
  rw [List.append_assoc, Stepper.handedScript handed, onTime.order]

theorem playingOnTime (rules : Rules α) (script : List (Action α)) (pulses : List (Pulse α)) :
    (playing rules script pulses).OnTime rules script pulses := by
  induction pulses using List.reverseRecOn with
  | nil =>
    exact {
      order := rfl
      ended := by intro finished; contradiction
      rests := by intro _ _; exact ⟨rfl, rfl⟩
      begun := Nat.le_refl _
      fast := by intro _ _; rfl
      slow := by intro _ t moving; contradiction }
  | append_singleton pulses pulse ih =>
    rw [playingSnoc]
    exact tickOnTime ih pulse

section tick
variable {rules : Rules α} {stepSize : α} {script : List (Action α)} {pulses : List (Pulse α)} {pulse : Pulse α}
  {p : Playback (Sequence α) α} {tick : Tick (Sequence α) α} {t : Transition α}

theorem landsOne (does : p.stepper.Does { rules with stepSize } pulse.now pulse.pace tick) :
    tick.landed = none ∨ tick.landed = p.stepper.transition := by
  cases does with
  | nothing _ _ landed => exact .inl landed
  | shows _ _ _ _ _ landed => exact .inl landed
  | begins _ _ landed => exact .inr landed
  | ends _ _ landed => exact .inr landed

theorem beginsOne (does : p.stepper.Does { rules with stepSize } pulse.now pulse.pace tick) :
    timesOf rules.stepDelay tick.taken = [] ∨ ∃ time t, timesOf rules.stepDelay tick.taken = [time] ∧
      tick.landed = p.stepper.transition ∧ tick.stepper.transition = some t ∧ t.startTime = pulse.now ∧
        t.targetTime = pulse.now + time := by
  cases does with
  | nothing _ _ _ taken => rw [taken]; exact .inl rfl
  | shows _ _ _ _ _ _ taken => rw [taken]; exact .inl rfl
  | @begins notes action t _ _ landed taken still starts stepper _ _ =>
    obtain ⟨time, lasts, start, target⟩ := startsLasting starts
    refine .inr ⟨time, t, ?_, landed, by rw [stepper], start, target⟩
    rw [taken, timesAppend, timesStill _ still, List.nil_append, lasts]
  | ends _ _ _ still => exact .inl (timesStill _ still)

theorem staysInFlight (onTime : p.OnTime rules script pulses)
    (does : p.stepper.Does { rules with stepSize } pulse.now pulse.pace tick) (slow : pulse.Slow)
    (moving : p.stepper.transition = some t) (early : pulse.now < t.targetTime) :
    tick.landed = none ∧ tick.stepper.transition = some t := by
  have notDue : (p.stepper.isDue pulse.now || pulse.pace.accelerate) = false := by
    have before : p.stepper.isDue pulse.now = false := by
      simp only [Stepper.isDue, moving]
      exact decide_eq_false (Nat.not_le_of_lt early)
    rw [before, slow, Bool.or_false]
  cases does with
  | nothing finished => cases (onTime.ended finished).1.symm.trans moving
  | shows _ _ _ _ stepper landed => exact ⟨landed, by rw [stepper]; exact moving⟩
  | begins _ due => cases due.symm.trans notDue
  | ends _ due => cases due.symm.trans notDue

theorem landsDue (onTime : p.OnTime rules script pulses)
    (does : p.stepper.Does { rules with stepSize } pulse.now pulse.pace tick)
    (moving : p.stepper.transition = some t) (reached : t.targetTime ≤ pulse.now) : tick.landed = some t := by
  cases does with
  | nothing finished => cases (onTime.ended finished).1.symm.trans moving
  | shows _ same early =>
    cases moving.symm.trans same
    exact absurd reached (of_decide_eq_false early)
  | begins _ _ landed => exact landed.trans moving
  | ends _ _ landed => exact landed.trans moving

end tick

structure Punctual (rules : Rules α) (script : List (Action α)) (pulses : List (Pulse α)) (pulse : Pulse α)
    (p : Playback (Sequence α) α) (tick : Tick (Sequence α) α) : Prop where
  order : p.actions ++ tick.taken ++ tick.supply.left = script
  lands : tick.landed = none ∨ tick.landed = p.stepper.transition
  begins : timesOf rules.stepDelay tick.taken = [] ∨ ∃ time t, timesOf rules.stepDelay tick.taken = [time] ∧
    tick.landed = p.stepper.transition ∧ tick.stepper.transition = some t ∧ t.startTime = pulse.now ∧
      t.targetTime = pulse.now + time
  notBefore : tick.wake = .finished → (timesOf rules.stepDelay script).length ≤ pulses.length
  fast : (∀ each ∈ pulses ++ [pulse], each.Fast) →
    (tick.wake = .finished ↔ (timesOf rules.stepDelay script).length ≤ pulses.length)
  stays : pulse.Slow → ∀ t, p.stepper.transition = some t → pulse.now < t.targetTime →
    tick.landed = none ∧ tick.stepper.transition = some t
  due : ∀ t, p.stepper.transition = some t → t.targetTime ≤ pulse.now → tick.landed = some t
  slow : (∀ each ∈ pulses ++ [pulse], each.Slow) → ∀ t, tick.stepper.transition = some t → ∃ before time,
    timesOf rules.stepDelay (p.actions ++ tick.taken) = before ++ [time] ∧ t.targetTime = t.startTime + time ∧
      before.foldl (· + ·) (Pulse.first (pulses ++ [pulse])) ≤ t.startTime

theorem scriptsKeepPace (rules : Rules α) (script : List (Action α)) (pulses : List (Pulse α)) (pulse : Pulse α) :
    let p := playing rules script pulses
    p.Punctual rules script pulses pulse (p.tickAt rules pulse.beat) := by
  intro p
  have onTime : p.OnTime rules script pulses := playingOnTime rules script pulses
  have later := tickOnTime onTime pulse
  have does := tickAtDoes rules p pulse.beat
  have finishes : (p.tickAt rules pulse.beat).wake = .finished ↔
      (p.tickAt rules pulse.beat).stepper.phase = .finished := Stepper.tickWake _ _ _ _ _
  generalize p.tickAt rules pulse.beat = tick at later does finishes ⊢
  have notBefore : tick.wake = .finished → (timesOf rules.stepDelay script).length ≤ pulses.length := by
    intro finished
    obtain ⟨_, left, length⟩ := later.ended (finishes.mp finished)
    have order := later.order
    rw [left, List.append_nil] at order
    rw [order, List.length_append] at length
    exact Nat.le_of_lt_succ length
  exact {
    order := later.order
    lands := landsOne does
    begins := beginsOne does
    notBefore := notBefore
    fast := by
      intro fast
      refine ⟨notBefore, ?_⟩
      intro enough
      by_contra running
      have begun := later.fast fast (mt finishes.mpr running)
      have all := congrArg (fun actions => (timesOf rules.stepDelay actions).length) later.order
      simp only [timesAppend, List.length_append, List.length_singleton] at all begun
      omega
    stays := by intro slow t moving early; exact staysInFlight onTime does slow moving early
    due := by intro t moving reached; exact landsDue onTime does moving reached
    slow := later.slow }

end Playback
end TurtleBoard
