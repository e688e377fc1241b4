import TurtleBoard.Proofs.Board
import TurtleBoard.Proofs.Floats
import TurtleBoard.Proofs.Phases

/-! Which frame of the walk cycle a pose shows. A pose of a motion shows the frame of the distance that the motion has
covered, so a motion starts in the standing frame, in which newcomers are placed as well. A pose without a motion shows
the first frame, which is the standing one in cycles of one or two frames only. -/
namespace TurtleBoard

namespace Number
open Float.Model Float.Model.UnpackedFloat

def IsNought : UnpackedFloat → Prop
  | .zero _ | .notANumber => True
  | .infinity _ | .finite .. => False

theorem unpackMul (x y : Float) : (x * y).toModel.unpack =
    (Float.Model.pack (UnpackedFloat.mul Format.binary64 x.toModel.unpack y.toModel.unpack)).unpack := rfl

theorem noughtPack {u : UnpackedFloat} (nought : IsNought u) : IsNought (Float.Model.pack u).unpack := by
  cases u with
  | notANumber => trivial
  | zero s => cases s <;> trivial
  | infinity s => contradiction
  | finite s m e pos => contradiction

theorem noughtTimes (x : Float) {y : Float} (nought : IsNought y.toModel.unpack) :
    IsNought (x * y).toModel.unpack := by
  rw [unpackMul]
  refine noughtPack ?_
  cases shape : y.toModel.unpack with
  | notANumber => cases x.toModel.unpack <;> trivial
  | zero s => cases x.toModel.unpack <;> trivial
  | infinity s => rw [shape] at nought; contradiction
  | finite s m e pos => rw [shape] at nought; contradiction

theorem noughtDiv {x : Float} (nought : IsNought x.toModel.unpack) (y : Float) : IsNought (x / y).toModel.unpack := by
  rw [unpackDiv]
  refine noughtPack ?_
  cases shape : x.toModel.unpack with
  | notANumber => cases y.toModel.unpack <;> trivial
  | zero s => cases y.toModel.unpack <;> trivial
  | infinity s => rw [shape] at nought; contradiction
  | finite s m e pos => rw [shape] at nought; contradiction

theorem unpackZero : (Float.ofInt 0).toModel.unpack = .zero .positive := rfl

theorem noughtBetween {x : Float} (nought : IsNought x.toModel.unpack) :
    Scalar.lt x Scalar.zero = false ∧ Scalar.lt Scalar.zero x = false ∧ Scalar.lt Scalar.one x = false := by
  change Float.lt x (Float.ofInt 0) = false ∧ Float.lt (Float.ofInt 0) x = false ∧ Float.lt (Float.ofInt 1) x = false
  rw [ltUnpack, ltUnpack, ltUnpack, unpackZero, unpackOne]
  cases shape : x.toModel.unpack with
  | notANumber => exact ⟨rfl, rfl, rfl⟩
  | zero s => exact ⟨rfl, rfl, rfl⟩
  | infinity s => rw [shape] at nought; contradiction
  | finite s m e pos => rw [shape] at nought; contradiction

end Number

namespace Walk

theorem standingIn (frames : Nat) : standing frames < max frames 1 ∧ standing frames < period frames := by
  unfold standing period
  omega

theorem frameAtStart (frames : Nat) : frameAt frames 0 = standing frames := by
  obtain ⟨frame, turn⟩ := standingIn frames
  rw [frameAt, Nat.zero_mod, Nat.zero_add, Nat.mod_eq_of_lt turn]
  exact if_pos frame

theorem standingFirst (frames : Nat) : standing frames = 0 ↔ frames ≤ 2 := by
  unfold standing
  omega

theorem frameNought {distance : Float} (nought : Number.IsNought distance.toModel.unpack) (frameDistance : Float)
    (frames : Nat) : frame distance frameDistance frames = standing frames := by
  rw [frame, strides, (Number.noughtBetween nought).2.1, Bool.and_false]
  exact frameAtStart frames

end Walk

namespace Transition

theorem secondsNought : (Duration.zero.seconds : Float).toModel.unpack = .zero .positive := rfl

theorem progressNought {t : Transition Float} (lasts : t.duration ≠ .zero) :
    Number.IsNought (t.progress t.startTime).toModel.unpack := by
  have elapsed : t.startTime - t.startTime = Duration.zero := congrArg Duration.ofNanos (Nat.sub_self _)
  have none : Number.IsNought (Duration.zero.seconds : Float).toModel.unpack := by
    rw [secondsNought]
    trivial
  have share := Number.noughtDiv none t.duration.seconds
  obtain ⟨low, _, high⟩ := Number.noughtBetween share
  have held : t.progress t.startTime = (Duration.zero.seconds : Float) / t.duration.seconds := by
    rw [progress, if_neg lasts, elapsed, Scalar.clamp, low, high]
    rfl
  rw [held]
  exact share

theorem startsStanding {t : Transition Float} (lasts : t.duration ≠ .zero) (frameDistance : Float) (frames : Nat) :
    Walk.frame (t.poseAt (t.progress t.startTime)).distance frameDistance frames = Walk.standing frames :=
  Walk.frameNought (Number.noughtTimes t.distance (progressNought lasts)) frameDistance frames

end Transition

def Rules.frame {α : Type} [Scalar α] (rules : Rules α) (distance : α) : Nat :=
  Walk.frame distance rules.walkFrameDistance rules.walkFrames

theorem Rules.frameZero (rules : Rules Float) : rules.frame Scalar.zero = Walk.standing rules.walkFrames := by
  have nought : Number.IsNought (Scalar.zero : Float).toModel.unpack := trivial
  exact Walk.frameNought nought rules.walkFrameDistance rules.walkFrames

def Effect.frame? {α : Type} : Effect α → Option Nat
  | .pose _ _ frame => some frame
  | .trail _ _ _ | .say _ _ => none

def framesOf {α : Type} (effects : List (Effect α)) : List Nat := effects.filterMap Effect.frame?

@[simp] theorem framesAppend {α : Type} (before later : List (Effect α)) :
    framesOf (before ++ later) = framesOf before ++ framesOf later := List.filterMap_append

section frames
variable {α σ : Type}

theorem framesRemarks (place : Point α) (commands : List (Command α)) : framesOf (remarks place commands) = [] := by
  unfold framesOf remarks
  rw [List.filterMap_filterMap, List.filterMap_eq_nil_iff]
  intro command _
  cases command <;> rfl

theorem framesLook [Scalar α] (rules : Rules α) (pen : Pen α) (old : Point α) (pose : Pose α) :
    framesOf (rules.look pen old pose) = [rules.frame pose.distance] := by
  unfold Rules.look Pen.trail
  rw [framesAppend]
  split
  · split <;> rfl
  · rfl

def Tick.underway [Scalar α] (now : Duration) (tick : Tick σ α) : List α :=
  (tick.stepper.transition.map fun t => (t.poseAt (t.progress now)).distance).toList

namespace Stepper
variable [Trig α]

/- The distance covered in each pose of a tick: in the motion that was in flight before it, if that has landed, and
nothing at all if there was none, and then in the motion that is in flight after it. -/
def covered (now : Duration) (s : Stepper α) (tick : Tick σ α) : List α :=
  (match s.transition with
    | none => [Scalar.zero]
    | some t => if tick.landed.isSome then [(t.poseAt Scalar.one).distance] else []) ++ tick.underway now

variable {rules : Rules α} {now : Duration} {pace : Pace} {s : Stepper α} {tick : Tick σ α}

theorem framesMoving (does : s.Does rules now pace tick) (running : s.phase ≠ .finished) {t : Transition α}
    (moving : s.transition = some t) : framesOf tick.effects = (s.covered now tick).map rules.frame := by
  have opening : framesOf (s.opening rules) = [rules.frame (t.poseAt Scalar.one).distance] := by
    simp only [Stepper.opening, moving]
    exact framesLook rules _ _ _
  cases does with
  | nothing finished => contradiction
  | @shows own _ same _ _ stepper landed _ effects _ =>
    obtain rfl : t = own := Option.some.inj (moving.symm.trans same)
    rw [effects, framesLook, covered, moving, landed, Tick.underway, stepper]
    simp only [moving]
    rfl
  | @begins _ _ own _ _ landed _ _ _ stepper effects _ =>
    rw [effects, framesAppend, framesAppend, framesRemarks, framesLook, opening, covered, landed, moving,
      Tick.underway, stepper]
    rfl
  | ends _ _ landed _ stepper effects =>
    rw [effects, framesAppend, framesRemarks, opening, covered, landed, moving, Tick.underway, stepper]
    rfl

theorem framesResting (does : s.Does rules now pace tick) (running : s.phase ≠ .finished)
    (rest : s.transition = none) : framesOf tick.effects = 0 :: (tick.underway now).map rules.frame := by
  have opening : framesOf (s.opening rules) = [0] := by
    simp only [Stepper.opening, rest]
    rfl
  cases does with
  | nothing finished => contradiction
  | shows _ moving => rw [rest] at moving; contradiction
  | begins _ _ _ _ _ _ stepper effects _ =>
    rw [effects, framesAppend, framesAppend, framesRemarks, framesLook, opening, Tick.underway, stepper]
    rfl
  | ends _ _ _ _ stepper effects =>
    rw [effects, framesAppend, framesRemarks, opening, Tick.underway, stepper]
    rfl

end Stepper
end frames

theorem Board.connectStands (b : Board) (now : Duration) (newcomers : List Newcomer) :
    ∀ id placement, Call.place id placement ∈ (b.connect now newcomers).2.1 →
      placement.sheetOffset = Walk.sheetOffset (Walk.standing b.config.walkFrames) b.config.walkFrameSize := by
  have kept := connectInduct
    (P := fun later calls => later.config = b.config ∧ ∀ id placement, Call.place id placement ∈ calls →
      placement.sheetOffset = Walk.sheetOffset (Walk.standing b.config.walkFrames) b.config.walkFrameSize)
    [] now newcomers ⟨rfl, by intro _ _ mem; contradiction⟩ ?_
  · exact kept.2
  · intro later done newcomer _ ⟨config, placed⟩
    refine ⟨config, ?_⟩
    intro id placement mem
    rcases List.mem_append.mp mem with mem | mem
    · exact placed id placement mem
    · rcases List.mem_cons.mp mem with spawn | mem
      · contradiction
      · cases List.mem_singleton.mp mem
        have nought : Number.IsNought (0.0 : Float).toModel.unpack := trivial
        rw [Walk.frameNought nought, config]

namespace Playback
variable {σ : Type}

structure Gait (rules : Rules Float) (now : Duration) (s : Stepper Float) (tick : Tick σ Float) : Prop where
  rests : s.transition = none → s.pose.distance = Scalar.zero
  walks : s.transition.isSome = true → framesOf tick.effects = (s.covered now tick).map rules.frame
  stays : s.transition = none → framesOf tick.effects = 0 :: (tick.underway now).map rules.frame
  agrees : framesOf tick.effects = (s.covered now tick).map rules.frame ↔
    s.transition.isSome = true ∨ rules.walkFrames ≤ 2
  starts : ∀ t, tick.stepper.transition = some t → t.startTime = now → t.duration ≠ .zero →
    (framesOf tick.effects).getLast? = some (Walk.standing rules.walkFrames)

theorem gaitOfTick {rules : Rules Float} {now : Duration} {pace : Pace} {s : Stepper Float} {tick : Tick σ Float}
    (does : s.Does rules now pace tick) (running : s.phase ≠ .finished)
    (rests : s.transition = none → s.pose.distance = Scalar.zero) : Gait rules now s tick where
  rests := rests
  walks := by
    intro moving
    obtain ⟨t, moving⟩ := Option.isSome_iff_exists.mp moving
    exact Stepper.framesMoving does running moving
  stays := Stepper.framesResting does running
  agrees := by
    cases moving : s.transition with
    | some t =>
      have walks := Stepper.framesMoving does running moving
      exact iff_of_true walks (.inl rfl)
    | none =>
      have covered : s.covered now tick = Scalar.zero :: tick.underway now := by
        rw [Stepper.covered, moving]
        rfl
      rw [covered, Stepper.framesResting does running moving, List.map_cons, List.cons_eq_cons,
        Rules.frameZero, eq_comm, Walk.standingFirst]
      simp only [and_true, Option.isSome_none, Bool.false_eq_true, false_or]
  starts := by
    intro t moving starting lasts
    subst starting
    have standing : rules.frame (t.poseAt (t.progress t.startTime)).distance = Walk.standing rules.walkFrames :=
      Transition.startsStanding lasts _ _
    have last : (tick.underway t.startTime).map rules.frame = [Walk.standing rules.walkFrames] := by
      rw [Tick.underway, moving, ← standing]
      rfl
    cases before : s.transition with
    | some _ =>
      rw [Stepper.framesMoving does running before, Stepper.covered, List.map_append, last, List.getLast?_concat]
    | none =>
      rw [Stepper.framesResting does running before, last]
      rfl

/- A pose of a motion shows the frame of the distance covered. A pose without a motion shows the first frame, so all
frames agree with the distances exactly if there are at most two. -/
theorem framesFollowMotions [Supply σ Float] (rules : Rules Float) (supply : σ) (beats : List (Float × Beat σ))
    (beat : Float × Beat σ) :
    let p := film rules supply beats
    (p.stepper.phase = .finished → (p.tickAt rules beat).effects = []) ∧
      (p.stepper.phase ≠ .finished → Gait rules beat.2.now p.stepper (p.tickAt rules beat)) ∧
      rules.frame Scalar.zero = Walk.standing rules.walkFrames ∧
      ∀ (b : Board) (now : Duration) (newcomers : List Newcomer) (id : String) (placement : Placement),
        Call.place id placement ∈ (b.connect now newcomers).2.1 →
          placement.sheetOffset = Walk.sheetOffset (Walk.standing b.config.walkFrames) b.config.walkFrameSize := by
  intro p
  refine ⟨tickAtFinished rules beat, ?_, rules.frameZero, Board.connectStands⟩
  intro running
  -- no field looks at the step size of the tick
  have gait := gaitOfTick (tickAtDoes rules p beat) running (filmRests rules supply beats)
  exact ⟨gait.rests, gait.walks, gait.stays, gait.agrees, gait.starts⟩

theorem firstFrameBeforeWalk :
    let rules := (Board.ofConfig {} []).rules
    let walker := film rules (Sequence.ofActions (Script.parse "draw mode\nforward 1")) []
    let tick := walker.tickAt rules (10.3, ⟨.zero, {}, id⟩)
    (framesOf tick.effects).head? = some 0 ∧
      ((walker.stepper.covered .zero tick).map rules.frame).head? = some 2 ∧
      framesOf tick.effects ≠ (walker.stepper.covered .zero tick).map rules.frame := by
  intro rules walker tick
  have first : (framesOf tick.effects).head? = some 0 := by decide +kernel
  have standing : ((walker.stepper.covered .zero tick).map rules.frame).head? = some 2 := by decide +kernel
  refine ⟨first, standing, ?_⟩
  intro same
  rw [same, standing] at first
  contradiction

end Playback
end TurtleBoard
