import Mathlib.Data.List.Induction
import TurtleBoard.Proofs.Runs

/-! How fast a board goes along a run. Two things bear on its speed keys: signals, and strides that land. A latch is
pending from its key until the next stride. A hold lasts until its key is let go. What ends one of them ends both. -/
namespace TurtleBoard

theorem snocSplit {α : Type} {items before later : List α} {last item : α}
    (split : items ++ [last] = before ++ item :: later) :
    before = items ∧ item = last ∧ later = [] ∨ ∃ rest, later = rest ++ [last] ∧ items = before ++ item :: rest := by
  rcases List.eq_nil_or_concat later with rfl | ⟨rest, other, rfl⟩
  · obtain ⟨rfl, same⟩ := List.append_inj' split rfl
    exact .inl ⟨rfl, (List.cons.inj same).1.symm, rfl⟩
  · rw [List.concat_eq_append, ← List.cons_append, ← List.append_assoc] at split
    obtain ⟨rfl, same⟩ := List.append_inj' split rfl
    obtain rfl := (List.cons.inj same).1
    exact .inr ⟨rest, List.concat_eq_append .., rfl⟩

inductive Cue where
  | signal (signal : Signal)
  | stride
  deriving DecidableEq

namespace Cue

def Since (starts : Cue → Prop) (stops : List Cue → Cue → Prop) (cues : List Cue) : Prop :=
  ∃ before cue later, cues = before ++ cue :: later ∧ starts cue ∧
    ∀ early c late, later = early ++ c :: late → ¬ stops (before ++ cue :: early) c

def Held : List Cue → Prop := Since (· = .signal .holdPressed) fun _ c => c = .signal .holdReleased

def Pending : List Cue → Prop := Since (· = .signal .latchPressed) fun _ c => c = .stride

def Ends (before : List Cue) (c : Cue) : Prop := c = .signal .holdReleased ∨ c = .stride ∧ Pending before

def Fast : List Cue → Prop := Since (fun c => c = .signal .holdPressed ∨ c = .signal .latchPressed) Ends

/- A cue that ends both while one of them should go on: the hold key is let go while a latch is pending, or a stride
lands under a pending latch while the key is held. -/
def Disturbs (before : List Cue) (c : Cue) : Prop :=
  Pending before ∧ (c = .signal .holdReleased ∨ c = .stride ∧ Held before)

def Undisturbed (cues : List Cue) : Prop := ∀ before c later, cues = before ++ c :: later → ¬ Disturbs before c

variable {starts : Cue → Prop} {stops : List Cue → Cue → Prop}

theorem sinceNil : ¬ Since starts stops [] := by
  rintro ⟨before, cue, later, none, _⟩
  exact List.append_ne_nil_of_right_ne_nil before (List.cons_ne_nil cue later) none.symm

theorem sinceSnoc (cues : List Cue) (c : Cue) :
    Since starts stops (cues ++ [c]) ↔ starts c ∨ Since starts stops cues ∧ ¬ stops cues c := by
  constructor
  · rintro ⟨before, cue, later, split, started, lasts⟩
    rcases snocSplit split with ⟨rfl, rfl, rfl⟩ | ⟨rest, rfl, rfl⟩
    · exact .inl started
    · refine .inr ⟨⟨before, cue, rest, rfl, started, fun early other late split => ?_⟩, lasts rest c [] rfl⟩
      exact lasts early other (late ++ [c]) (by rw [split, List.append_assoc, List.cons_append])
  · rintro (started | ⟨⟨before, cue, later, rfl, started, lasts⟩, goesOn⟩)
    · refine ⟨cues, c, [], rfl, started, fun early other late split => ?_⟩
      exact absurd split.symm (List.append_ne_nil_of_right_ne_nil early (List.cons_ne_nil other late))
    · refine ⟨before, cue, later ++ [c], by rw [List.append_assoc, List.cons_append], started, ?_⟩
      intro early other late split
      rcases snocSplit split with ⟨rfl, rfl, _⟩ | ⟨rest, _, rfl⟩
      · exact goesOn
      · exact lasts early other rest rfl

theorem heldSnoc (cues : List Cue) (c : Cue) :
    Held (cues ++ [c]) ↔ c = .signal .holdPressed ∨ Held cues ∧ c ≠ .signal .holdReleased := sinceSnoc cues c

theorem pendingSnoc (cues : List Cue) (c : Cue) :
    Pending (cues ++ [c]) ↔ c = .signal .latchPressed ∨ Pending cues ∧ c ≠ .stride := sinceSnoc cues c

theorem fastSnoc (cues : List Cue) (c : Cue) :
    Fast (cues ++ [c]) ↔ (c = .signal .holdPressed ∨ c = .signal .latchPressed) ∨ Fast cues ∧ ¬ Ends cues c :=
  sinceSnoc cues c

theorem fastReason {cues : List Cue} (fast : Fast cues) : Held cues ∨ Pending cues := by
  induction cues using List.reverseRecOn with
  | nil => exact absurd fast sinceNil
  | append_singleton cues c ih =>
    rw [heldSnoc, pendingSnoc]
    rcases (fastSnoc cues c).mp fast with (rfl | rfl) | ⟨fast, goesOn⟩
    · exact .inl (.inl rfl)
    · exact .inr (.inl rfl)
    · rcases ih fast with held | pending
      · exact .inl (.inr ⟨held, fun released => goesOn (.inl released)⟩)
      · exact .inr (.inr ⟨pending, fun landed => goesOn (.inr ⟨landed, pending⟩)⟩)

theorem disturbedSlow {cues : List Cue} {c : Cue} (disturbs : Disturbs cues c) :
    ¬ Fast (cues ++ [c]) ∧ (Held (cues ++ [c]) ∨ Pending (cues ++ [c])) := by
  obtain ⟨pending, rfl | ⟨rfl, held⟩⟩ := disturbs
  · have ends : Ends cues (.signal .holdReleased) := .inl rfl
    rw [fastSnoc, pendingSnoc]
    exact ⟨by simp [ends], .inr (.inr ⟨pending, nofun⟩)⟩
  · have ends : Ends cues .stride := .inr ⟨rfl, pending⟩
    rw [fastSnoc, heldSnoc]
    exact ⟨by simp [ends], .inl (.inr ⟨held, nofun⟩)⟩

theorem undisturbedFast {cues : List Cue} (undisturbed : Undisturbed cues) (reason : Held cues ∨ Pending cues) :
    Fast cues := by
  induction cues using List.reverseRecOn with
  | nil => exact absurd reason (by rintro (held | pending) <;> exact sinceNil (by assumption))
  | append_singleton cues c ih =>
    have earlier : Undisturbed cues := fun before cue later split =>
      undisturbed before cue (later ++ [c]) (by rw [split, List.append_assoc, List.cons_append])
    have calm : ¬ Disturbs cues c := undisturbed cues c [] rfl
    rw [fastSnoc]
    rcases reason with held | pending
    · rcases (heldSnoc cues c).mp held with rfl | ⟨held, stays⟩
      · exact .inl (.inl rfl)
      · refine .inr ⟨ih earlier (.inl held), ?_⟩
        rintro (released | ⟨landed, pending⟩)
        · exact stays released
        · exact calm ⟨pending, .inr ⟨landed, held⟩⟩
    · rcases (pendingSnoc cues c).mp pending with rfl | ⟨pending, stays⟩
      · exact .inl (.inr rfl)
      · refine .inr ⟨ih earlier (.inr pending), ?_⟩
        rintro (released | ⟨landed, _⟩)
        · exact calm ⟨pending, .inl released⟩
        · exact stays landed

end Cue

namespace Pace

def cued (pace : Pace) : Cue → Pace
  | .signal signal => pace.after signal
  | .stride => if pace.latched then {} else pace

def cuedAll (pace : Pace) (cues : List Cue) : Pace := cues.foldl cued pace

theorem cuedAppend (pace : Pace) (cues later : List Cue) :
    pace.cuedAll (cues ++ later) = (pace.cuedAll cues).cuedAll later := List.foldl_append

theorem cuedKeys (cues : List Cue) :
    ((cuedAll {} cues).latched = true ↔ Cue.Pending cues) ∧ ((cuedAll {} cues).accelerate = true ↔ Cue.Fast cues) := by
  induction cues using List.reverseRecOn with
  | nil => exact ⟨iff_of_false Bool.false_ne_true Cue.sinceNil, iff_of_false Bool.false_ne_true Cue.sinceNil⟩
  | append_singleton cues c ih =>
    obtain ⟨latched, accelerate⟩ := ih
    rw [cuedAppend, Cue.pendingSnoc, Cue.fastSnoc, Cue.Ends, ← latched, ← accelerate]
    generalize cuedAll {} cues = pace
    cases c with
    | signal signal => cases signal <;> simp [cuedAll, cued, Pace.after]
    | stride => cases pending : pace.latched <;> simp [cuedAll, cued, pending]

end Pace

namespace Tick
variable {σ α : Type}

def isStride (tick : Tick σ α) : Bool := tick.landed.any fun t => decide (t.motion = .step)

def cues (tick : Tick σ α) : List Cue := if tick.isStride then [.stride] else []

def isEarlyStride (now : Duration) (tick : Tick σ α) : Bool :=
  tick.landed.any fun t => decide (t.motion = .step) && !t.isDue now

end Tick

namespace Stepper
variable {α σ : Type} [Trig α] [Supply σ α]

theorem tickCued (rules : Rules α) (now : Duration) (pace : Pace) (supply : σ) (s : Stepper α) :
    (s.tick rules now pace supply).pace = pace.cuedAll (s.tick rules now pace supply).cues := by
  by_cases finished : s.phase = .finished
  · rw [tickFinished rules now pace supply finished]
    rfl
  · cases ended : s.isDue now || pace.accelerate with
    | false =>
      rw [tickInFlight rules now pace supply finished ended]
      rfl
    | true =>
      rw [tickLanding rules now pace supply finished ended]
      simp only [Tick.cues, Tick.isStride]
      cases moving : s.transition with
      | none =>
        rw [landAtRest rules pace moving]
        rfl
      | some t =>
        rw [landInFlight rules pace moving]
        by_cases stride : t.motion = .step
        · simp [stride, Pace.cuedAll, Pace.cued]
        · simp [stride, Pace.cuedAll]

theorem tickEarly (rules : Rules α) (now : Duration) (pace : Pace) (supply : σ) (s : Stepper α)
    (early : (s.tick rules now pace supply).isEarlyStride now = true) :
    pace.accelerate = true ∧ (s.tick rules now pace supply).isStride = true := by
  by_cases finished : s.phase = .finished
  · rw [tickFinished rules now pace supply finished] at early
    contradiction
  · cases ended : s.isDue now || pace.accelerate with
    | false =>
      rw [tickInFlight rules now pace supply finished ended] at early
      contradiction
    | true =>
      rw [tickLanding rules now pace supply finished ended] at early ⊢
      obtain ⟨t, moving, early⟩ := (Option.any_eq_true _ _).mp early
      obtain ⟨stride, early⟩ := Bool.and_eq_true_iff.mp early
      refine ⟨?_, (Option.any_eq_true _ _).mpr ⟨t, moving, stride⟩⟩
      change s.transition = some t at moving
      rw [isDue, moving, Bool.or_eq_true_iff] at ended
      rw [Bool.not_eq_true'] at early
      exact ended.resolve_left (Bool.eq_false_iff.mp early)

theorem tickUsesLatch (rules : Rules α) (now : Duration) {pace : Pace} (supply : σ) (s : Stepper α)
    (latchOnly : pace.accelerate = pace.latched) :
    let tick := s.tick rules now pace supply
    tick.pace.accelerate = tick.pace.latched ∧
      (tick.isEarlyStride now).toNat + tick.pace.latched.toNat ≤ pace.latched.toNat := by
  intro tick
  have cued : tick.pace = pace.cuedAll tick.cues := tickCued rules now pace supply s
  rw [cued]
  cases stride : tick.isStride with
  | false =>
    have early : tick.isEarlyStride now = false :=
      Bool.eq_false_iff.mpr fun early => Bool.eq_false_iff.mp stride (tickEarly rules now pace supply s early).2
    simp [Tick.cues, stride, early, Pace.cuedAll, latchOnly]
  | true =>
    cases pending : pace.latched with
    | false =>
      have early : tick.isEarlyStride now = false := Bool.eq_false_iff.mpr fun early => by
        have fast := (tickEarly rules now pace supply s early).1
        rw [latchOnly, pending] at fast
        contradiction
      simp [Tick.cues, stride, early, Pace.cuedAll, Pace.cued, latchOnly, pending]
    | true => simp [Tick.cues, stride, Pace.cuedAll, Pace.cued, pending, Bool.toNat_le]

end Stepper

namespace Board
variable {ω : Type} [Link ω]

def Deed.cues (d : Deed ω) : List Cue :=
  match d.act with
  | .signal signal => [.signal signal]
  | .toggleHold => [.signal (if d.before.pace.accelerate then .holdReleased else .holdPressed)]
  | .connect _ _ | .advance _ | .resize _ _ => d.outcome.turns.flatMap (·.tick.cues)

def Deed.earlyStrides (d : Deed ω) : List (Turn ω) :=
  match d.act with
  | .advance now => d.outcome.turns.filter (·.tick.isEarlyStride now)
  | _ => []

theorem turnPace (b : Board) (now : Duration) (id : String) (actor : Actor) (link : ω) :
    (b.turn now id actor link).1.pace = (b.tickOf now actor link).pace := by
  obtain ⟨bubbles, nextBubble, same⟩ := turnBoard b now id actor link
  rw [same]

theorem advancePace (b : Board) (now : Duration) (link : ω) :
    (b.advance now link).board.pace = b.pace.cuedAll ((b.advance now link).turns.flatMap (·.tick.cues)) ∧
      ∀ soon turn late, (b.advance now link).turns = soon ++ turn :: late →
        turn.tick.pace = b.pace.cuedAll ((soon ++ [turn]).flatMap (·.tick.cues)) := by
  refine advanceInduct (P := fun (after : Board) (_ : ω) (done : List (Turn ω)) =>
    after.pace = b.pace.cuedAll (done.flatMap (·.tick.cues)) ∧ ∀ soon turn late, done = soon ++ turn :: late →
      turn.tick.pace = b.pace.cuedAll ((soon ++ [turn]).flatMap (·.tick.cues))) ?_ ?_
  · exact ⟨rfl, fun soon turn late none =>
      absurd none.symm (List.append_ne_nil_of_right_ne_nil soon (List.cons_ne_nil turn late))⟩
  · rintro after link done id actor _ _ ⟨pace, earlier⟩
    have here : (after.tickOf now actor link).pace =
        b.pace.cuedAll ((done ++ [(after.turn now id actor link).2.2]).flatMap (·.tick.cues)) := by
      rw [List.flatMap_append, List.flatMap_singleton, Pace.cuedAppend, ← pace]
      exact Stepper.tickCued after.rules now after.pace (actor.moves, link) actor.stepper
    refine ⟨(turnPace after now id actor link).trans here, fun soon turn late split => ?_⟩
    rcases snocSplit split with ⟨rfl, rfl, _⟩ | ⟨rest, _, split⟩
    · exact here
    · exact earlier soon turn rest split

theorem connectPace (b : Board) (now : Duration) (newcomers : List Newcomer) :
    (b.connect now newcomers).1.pace = b.pace :=
  connectInduct (P := fun after _ => after.pace = b.pace) [] now newcomers rfl fun _ _ _ _ same => same

theorem performPace (b : Board) (act : Act) (link : ω) :
    (b.perform link act).board.pace = b.pace.cuedAll (b.deed act link).cues := by
  cases act with
  | connect now newcomers => exact connectPace b now newcomers
  | advance now => exact (advancePace b now link).1
  | resize width height => rfl
  | signal signal => rfl
  | toggleHold => rfl

theorem runPace (b : Board) (acts : List (Act × ω)) :
    (b.after acts).pace = b.pace.cuedAll ((b.deeds acts).flatMap Deed.cues) := by
  refine runInduct (P := fun after done => after.pace = b.pace.cuedAll (done.flatMap Deed.cues)) [] rfl ?_
  intro after done act link _ pace
  rw [performPace, pace, List.flatMap_append, List.flatMap_singleton, Pace.cuedAppend]

theorem runTurnPace {b : Board} {acts : List (Act × ω)} {before later : List (Deed ω)} {d : Deed ω}
    (split : b.deeds acts = before ++ d :: later) {soon late : List (Turn ω)} {turn : Turn ω}
    (turns : d.outcome.turns = soon ++ turn :: late) :
    turn.tick.pace = b.pace.cuedAll (before.flatMap Deed.cues ++ (soon ++ [turn]).flatMap (·.tick.cues)) := by
  obtain ⟨earlier, act, link, rest, _, rfl, rfl, _⟩ := deedsSplit split
  rw [Pace.cuedAppend, ← runPace]
  cases act with
  | advance now => exact (advancePace (b.after earlier) now link).2 soon turn late turns
  | _ => exact absurd turns.symm (List.append_ne_nil_of_right_ne_nil soon (List.cons_ne_nil turn late))

theorem speedFollowsKeys (config : Config) (draws : Draws) (acts : List (Act × ω)) :
    let b := (ofConfig config draws).after acts
    let cues := ((ofConfig config draws).deeds acts).flatMap Deed.cues
    (b.pace.latched = true ↔ Cue.Pending cues) ∧ (b.pace.accelerate = true ↔ Cue.Fast cues) ∧
      (b.pace.accelerate = true → Cue.Held cues ∨ Cue.Pending cues) ∧
      (Cue.Undisturbed cues → (b.pace.accelerate = true ↔ Cue.Held cues ∨ Cue.Pending cues)) ∧
      (∀ before c, cues = before ++ [c] → Cue.Disturbs before c →
        b.pace.accelerate = false ∧ (Cue.Held cues ∨ Cue.Pending cues)) := by
  intro b cues
  have pace : b.pace = Pace.cuedAll {} cues := runPace (ofConfig config draws) acts
  obtain ⟨latched, accelerate⟩ := Pace.cuedKeys cues
  rw [← pace] at latched accelerate
  have reason : b.pace.accelerate = true → Cue.Held cues ∨ Cue.Pending cues := fun fast =>
    Cue.fastReason (accelerate.mp fast)
  refine ⟨latched, accelerate, reason, fun undisturbed => ⟨reason, fun held => ?_⟩, fun before c split disturbs => ?_⟩
  · exact accelerate.mpr (Cue.undisturbedFast undisturbed held)
  · obtain ⟨slow, held⟩ := Cue.disturbedSlow disturbs
    rw [← split] at slow held
    exact ⟨Bool.eq_false_iff.mpr (mt accelerate.mp slow), held⟩

theorem holdAndLatchEndTogether :
    let away : Replies := ⟨[], []⟩
    let released : List (Act × Replies) :=
      [(.signal .latchPressed, away), (.signal .holdPressed, away), (.signal .holdReleased, away)]
    let landed : List (Act × Replies) :=
      [(.connect .zero [.scripted "0" "draw mode\nforward"], away), (.advance (.ofMillis 500), away),
        (.signal .holdPressed, away), (.signal .latchPressed, away), (.advance (.ofMillis 516), away)]
    let cues (acts : List (Act × Replies)) := ((ofConfig {} []).deeds acts).flatMap Deed.cues
    (Cue.Pending (cues released) ∧ ((ofConfig {} []).after released).pace.accelerate = false) ∧
      Cue.Held (cues landed) ∧ ((ofConfig {} []).after landed).pace.accelerate = false := by
  intro away released landed cues
  refine ⟨⟨(Pace.cuedKeys (cues released)).1.mp rfl, rfl⟩, ?_, by decide +kernel⟩
  have heard : cues landed = [.signal .holdPressed, .signal .latchPressed, .stride] := by decide +kernel
  rw [heard]
  have held : Cue.Held [.signal .holdPressed] := (Cue.heldSnoc [] _).mpr (.inl rfl)
  have latched := (Cue.heldSnoc _ (.signal .latchPressed)).mpr (.inr ⟨held, by decide⟩)
  exact (Cue.heldSnoc _ .stride).mpr (.inr ⟨latched, by decide⟩)

def Act.isLatchOnly : Act → Bool
  | .signal sent => decide (sent = .latchPressed ∨ sent = .latchReleased)
  | .toggleHold => false
  | .connect _ _ | .advance _ | .resize _ _ => true

theorem advanceUsesLatch (b : Board) (now : Duration) (link : ω) (latchOnly : b.pace.accelerate = b.pace.latched) :
    let a := b.advance now link
    a.board.pace.accelerate = a.board.pace.latched ∧
      (∀ turn ∈ a.turns, turn.tick.pace.accelerate = turn.tick.pace.latched) ∧
      a.turns.countP (·.tick.isEarlyStride now) + a.board.pace.latched.toNat ≤ b.pace.latched.toNat := by
  refine advanceInduct (P := fun (after : Board) (_ : ω) (done : List (Turn ω)) =>
    after.pace.accelerate = after.pace.latched ∧
      (∀ turn ∈ done, turn.tick.pace.accelerate = turn.tick.pace.latched) ∧
      done.countP (·.tick.isEarlyStride now) + after.pace.latched.toNat ≤ b.pace.latched.toNat) ?_ ?_
  · exact ⟨latchOnly, (fun _ mem => nomatch mem), Nat.le_of_eq (Nat.zero_add _)⟩
  · rintro after link done id actor _ _ ⟨same, earlier, skipped⟩
    obtain ⟨still, used⟩ := Stepper.tickUsesLatch after.rules now (actor.moves, link) actor.stepper same
    rw [turnPace]
    refine ⟨still, fun turn mem => ?_, ?_⟩
    · rcases List.mem_append.mp mem with mem | mem
      · exact earlier turn mem
      · rw [List.mem_singleton.mp mem]
        exact still
    · rw [List.countP_append, List.countP_singleton, turnTick, ← Bool.cond_eq_ite, Nat.add_assoc]
      exact Nat.le_trans (Nat.add_le_add_left used _) skipped

structure UsesLatch (b : Board) (d : Deed ω) : Prop where
  same : d.outcome.board.pace.accelerate = d.outcome.board.pace.latched
  turns : ∀ turn ∈ d.outcome.turns, turn.tick.pace.accelerate = turn.tick.pace.latched
  skipped : d.earlyStrides.length + d.outcome.board.pace.latched.toNat ≤
    b.pace.latched.toNat + d.cues.count (.signal .latchPressed)

omit [Link ω] in
theorem UsesLatch.idle {b : Board} {d : Deed ω} (latchOnly : b.pace.accelerate = b.pace.latched)
    (pace : d.outcome.board.pace = b.pace) (turns : d.outcome.turns = []) (strides : d.earlyStrides = []) :
    UsesLatch b d where
  same := by rw [pace, latchOnly]
  turns := by
    rw [turns]
    exact fun _ mem => nomatch mem
  skipped := by
    rw [pace, strides, List.length_nil, Nat.zero_add]
    exact Nat.le_add_right _ _

theorem performUsesLatch {b : Board} {act : Act} (latchOnly : b.pace.accelerate = b.pace.latched)
    (quiet : act.isLatchOnly = true) (link : ω) : UsesLatch b (b.deed act link) := by
  cases act with
  | connect now newcomers => exact .idle latchOnly (connectPace b now newcomers) rfl rfl
  | resize width height => exact .idle latchOnly rfl rfl rfl
  | toggleHold => contradiction
  | advance now =>
    obtain ⟨same, turns, skipped⟩ := advanceUsesLatch b now link latchOnly
    rw [List.countP_eq_length_filter] at skipped
    exact ⟨same, turns, Nat.le_trans skipped (Nat.le_add_right _ _)⟩
  | signal sent =>
    rcases of_decide_eq_true quiet with rfl | rfl
    · exact ⟨rfl, (fun _ mem => nomatch mem), Nat.le_add_left _ _⟩
    · exact .idle latchOnly rfl rfl rfl

theorem runUsesLatch {b : Board} (rest : b.pace = {}) {acts : List (Act × ω)}
    (quiet : ∀ entry ∈ acts, entry.1.isLatchOnly = true) :
    (b.after acts).pace.accelerate = (b.after acts).pace.latched ∧
      (∀ d ∈ b.deeds acts, ∀ turn ∈ d.outcome.turns, turn.tick.pace.accelerate = turn.tick.pace.latched) ∧
      ((b.deeds acts).flatMap Deed.earlyStrides).length + (b.after acts).pace.latched.toNat ≤
        ((b.deeds acts).flatMap Deed.cues).count (.signal .latchPressed) := by
  refine runInduct (P := fun after done => after.pace.accelerate = after.pace.latched ∧
    (∀ d ∈ done, ∀ turn ∈ d.outcome.turns, turn.tick.pace.accelerate = turn.tick.pace.latched) ∧
    (done.flatMap Deed.earlyStrides).length + after.pace.latched.toNat ≤
      (done.flatMap Deed.cues).count (.signal .latchPressed)) [] ?_ ?_
  · rw [rest]
    exact ⟨rfl, (fun _ mem => nomatch mem), Nat.le_refl 0⟩
  · rintro after done act link mem ⟨same, earlier, skipped⟩
    have uses := performUsesLatch same (quiet _ mem) link
    refine ⟨uses.same, fun d mem => ?_, ?_⟩
    · rcases List.mem_append.mp mem with mem | mem
      · exact earlier d mem
      · rw [List.mem_singleton.mp mem]
        exact uses.turns
    · rw [List.flatMap_append, List.flatMap_append, List.flatMap_singleton, List.flatMap_singleton,
        List.length_append, List.count_append, Nat.add_assoc]
      calc
        _ ≤ _ := Nat.add_le_add_left uses.skipped _
        _ = _ := (Nat.add_assoc ..).symm
        _ ≤ _ := Nat.add_le_add_right skipped _

theorem latchSkipsOneStride (config : Config) (draws : Draws) (acts : List (Act × ω))
    (quiet : ∀ entry ∈ acts, entry.1.isLatchOnly = true) :
    let b := (ofConfig config draws).after acts
    let run := (ofConfig config draws).deeds acts
    let cues := run.flatMap Deed.cues
    b.pace.accelerate = b.pace.latched ∧ (b.pace.latched = true ↔ Cue.Pending cues) ∧
      (∀ before d later, run = before ++ d :: later → ∀ soon turn late, d.outcome.turns = soon ++ turn :: late →
        turn.tick.pace.accelerate = turn.tick.pace.latched ∧ (turn.tick.pace.latched = true ↔
          Cue.Pending (before.flatMap Deed.cues ++ (soon ++ [turn]).flatMap (·.tick.cues)))) ∧
      (run.flatMap Deed.earlyStrides).length ≤ cues.count (.signal .latchPressed) := by
  intro b run cues
  obtain ⟨same, turns, skipped⟩ := runUsesLatch (b := ofConfig config draws) rfl quiet
  refine ⟨same, ?_, ?_, Nat.le_trans (Nat.le_add_right _ _) skipped⟩
  · rw [show b.pace = Pace.cuedAll {} cues from runPace (ofConfig config draws) acts]
    exact (Pace.cuedKeys cues).1
  · intro before d later split soon turn late ticked
    have among : d ∈ run := split ▸ List.mem_append_right before List.mem_cons_self
    have own : turn ∈ d.outcome.turns := ticked ▸ List.mem_append_right soon List.mem_cons_self
    refine ⟨turns d among turn own, ?_⟩
    rw [runTurnPace split ticked]
    exact (Pace.cuedKeys _).1

theorem latchSkipsOneOfTwo :
    let away : Replies := ⟨[], []⟩
    let acts : List (Act × Replies) :=
      [(.connect .zero [.scripted "0" "draw mode\nforward", .scripted "1" "draw mode\nforward"], away),
        (.advance (.ofMillis 500), away), (.signal .latchPressed, away), (.advance (.ofMillis 516), away)]
    let run := (ofConfig {} []).deeds acts
    (∀ entry ∈ acts, entry.1.isLatchOnly = true) ∧
      (run.map fun d => d.outcome.turns.length) = [0, 2, 0, 2] ∧ (run.flatMap Deed.earlyStrides).length = 1 ∧
      (run.flatMap Deed.earlyStrides).length ≤ (run.flatMap Deed.cues).count (.signal .latchPressed) := by
  intro away acts run
  have quiet : ∀ entry ∈ acts, entry.1.isLatchOnly = true := by decide
  exact ⟨quiet, by decide +kernel, by decide +kernel, (latchSkipsOneStride {} [] acts quiet).2.2.2⟩

end Board
end TurtleBoard
