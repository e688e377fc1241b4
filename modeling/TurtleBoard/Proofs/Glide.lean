import TurtleBoard.Proofs.Clipping
import TurtleBoard.Proofs.Flight
import TurtleBoard.Proofs.Phases

/-! How a motion goes from its start to its target, in exact arithmetic. The share of its time that has passed grows
from nothing to all of it, which is there just when the motion is due. So an actor goes forward only, and the trails of
the motion are parts of the way that meet where one ends and the next one starts. -/
namespace TurtleBoard

namespace Duration

theorem subNanos (a b : Duration) : (a - b).nanos = a.nanos - b.nanos := by
  have top := a.le_max
  change min (a.nanos - b.nanos) maxNanos = a.nanos - b.nanos
  omega

theorem secondsRat (d : Duration) : (d.seconds : Rat) = d.nanos / nanosPerSecond := by
  have whole : ((d.nanos / nanosPerSecond : Nat) : Rat) * nanosPerSecond + (d.nanos % nanosPerSecond : Nat) =
      d.nanos := by
    exact_mod_cast Nat.div_add_mod' d.nanos nanosPerSecond
  have second : (nanosPerSecond : Rat) ≠ 0 := by decide +kernel
  change ((d.nanos / nanosPerSecond : Nat) : Rat) + (d.nanos % nanosPerSecond : Nat) / nanosPerSecond = _
  rw [eq_div_iff second, add_mul, div_mul_cancel₀ _ second, whole]

theorem eqZero {d : Duration} : d = zero ↔ d.nanos = 0 := by
  constructor
  · rintro rfl
    rfl
  · intro none
    cases d
    cases none
    rfl

end Duration

namespace Transition
variable {t : Transition Rat} {now : Duration}

theorem progressRat (lasts : t.duration ≠ .zero) :
    t.progress now = min 1 (((now.nanos - t.startTime.nanos : Nat) : Rat) / t.duration.nanos) := by
  have second : (Duration.nanosPerSecond : Rat) ≠ 0 := by decide +kernel
  have share : ((now - t.startTime).seconds / t.duration.seconds : Rat) =
      ((now.nanos - t.startTime.nanos : Nat) : Rat) / t.duration.nanos := by
    rw [Duration.secondsRat, Duration.secondsRat, Duration.subNanos, div_div_div_cancel_right₀ second]
  have low : ¬ ((now.nanos - t.startTime.nanos : Nat) : Rat) / t.duration.nanos < 0 := not_lt.mpr (by positivity)
  rw [progress, if_neg lasts, share, Scalar.clamp, Scalar.ltRat, Scalar.ltRat, Scalar.zeroRat, decide_eq_false low]
  change (if decide (1 < _) = true then (1 : Rat) else _) = _
  rw [min_def]
  grind

structure Timed (t : Transition Rat) : Prop where
  share : ∀ now, 0 ≤ t.progress now ∧ t.progress now ≤ 1
  onward : ∀ early late, early ≤ late → t.progress early ≤ t.progress late
  starts : t.duration ≠ .zero → t.progress t.startTime = 0
  ends : ∀ now, t.startTime ≤ now → (t.progress now = 1 ↔ t.targetTime ≤ now)

theorem Sound.timed (sound : t.Sound) : t.Timed := by
  have order : t.startTime.nanos ≤ t.targetTime.nanos := sound.timely
  have length : t.duration.nanos = t.targetTime.nanos - t.startTime.nanos := Duration.subNanos _ _
  by_cases lasts : t.duration = .zero
  · have all (now : Duration) : t.progress now = 1 := if_pos lasts
    rw [Duration.eqZero, length] at lasts
    refine ⟨?_, ?_, ?_, ?_⟩
    · intro now
      rw [all]
      exact ⟨zero_le_one, le_rfl⟩
    · intro early late _
      rw [all, all]
    · intro some
      exact absurd (Duration.eqZero.mpr (length.trans lasts)) some
    · intro now begun
      have due : t.targetTime.nanos ≤ now.nanos := by
        have begun : t.startTime.nanos ≤ now.nanos := begun
        omega
      exact iff_of_true (all now) due
  · have some : (0 : Rat) < t.duration.nanos := by exact_mod_cast Nat.pos_of_ne_zero (mt Duration.eqZero.mpr lasts)
    refine ⟨?_, ?_, ?_, ?_⟩
    · intro now
      rw [progressRat lasts]
      exact ⟨le_min zero_le_one (by positivity), min_le_left _ _⟩
    · intro early late order
      have order : early.nanos ≤ late.nanos := order
      rw [progressRat lasts, progressRat lasts]
      gcongr
    · intro _
      rw [progressRat lasts, Nat.sub_self, Nat.cast_zero, zero_div]
      exact min_eq_right zero_le_one
    · intro now begun
      have begun : t.startTime.nanos ≤ now.nanos := begun
      rw [progressRat lasts, min_eq_left_iff, one_le_div some, Nat.cast_le, length]
      change _ ↔ t.targetTime.nanos ≤ now.nanos
      omega

end Transition

namespace Point
variable {a b : Point Rat}

theorem beqRat (p q : Point Rat) : (p == q) = decide (p = q) := by
  cases p
  cases q
  simp only [mk.injEq, Bool.decide_and]
  rfl

theorem betweenZero (a b : Point Rat) : a.between b 0 = a := by
  rw [betweenRat, mul_zero, mul_zero, zero_add, zero_add]

theorem betweenOne (a b : Point Rat) : a.between b 1 = b := by
  rw [betweenRat, mul_one, mul_one, sub_add_cancel, sub_add_cancel]

theorem betweenSame (a : Point Rat) (t : Rat) : a.between a t = a := by
  rw [betweenRat, sub_self, sub_self, zero_mul, zero_add, zero_add]

theorem betweenInj (apart : a ≠ b) {one other : Rat} (same : a.between b one = a.between b other) : one = other := by
  obtain ⟨sameX, sameY⟩ := Point.mk.inj same
  rw [add_left_inj, mul_eq_mul_left_iff] at sameX sameY
  rcases sameX with same | alongX
  · exact same
  · rcases sameY with same | alongY
    · exact same
    · refine absurd ?_ apart
      cases a
      cases b
      rw [Point.mk.injEq]
      exact ⟨(sub_eq_zero.mp alongX).symm, (sub_eq_zero.mp alongY).symm⟩

end Point

section pieces
open Point (OnSegment)
variable {a b : Point Rat} {low high : Rat} {parts : List (Point Rat × Point Rat)}

inductive Pieces (a b : Point Rat) : Rat → Rat → List (Point Rat × Point Rat) → Prop where
  | nil (low : Rat) : Pieces a b low low []
  | cons {low middle high : Rat} {later : List (Point Rat × Point Rat)} (more : low < middle)
      (rest : Pieces a b middle high later) :
      Pieces a b low high ((a.between b low, a.between b middle) :: later)

theorem Pieces.order (pieces : Pieces a b low high parts) : low ≤ high := by
  induction pieces with
  | nil low => exact le_rfl
  | cons more rest ih => exact more.le.trans ih

theorem Pieces.inside (pieces : Pieces a b low high parts) :
    ∀ part ∈ parts, ∃ l h, low ≤ l ∧ l < h ∧ h ≤ high ∧ part = (a.between b l, a.between b h) := by
  induction pieces with
  | nil low => exact List.forall_mem_nil _
  | cons more rest ih =>
    rw [List.forall_mem_cons]
    constructor
    · exact ⟨_, _, le_rfl, more, rest.order, rfl⟩
    · intro part mem
      obtain ⟨l, h, lower, some, upper, here⟩ := ih part mem
      exact ⟨l, h, more.le.trans lower, some, upper, here⟩

structure Tiles (a b : Point Rat) (parts : List (Point Rat × Point Rat)) : Prop where
  covers : ∀ p, OnSegment a b p ↔ ∃ part ∈ parts, OnSegment part.1 part.2 p
  apart : parts.Pairwise fun one other =>
    ∀ p, OnSegment one.1 one.2 p → OnSegment other.1 other.2 p → p = one.2 ∧ p = other.1

theorem Pieces.covers (pieces : Pieces a b low high parts) (some : low < high) (p : Point Rat) :
    OnSegment (a.between b low) (a.between b high) p ↔ ∃ part ∈ parts, OnSegment part.1 part.2 p := by
  rw [Point.onPart some.le]
  constructor
  · rintro ⟨t, lower, upper, here⟩
    induction pieces with
    | nil low => exact absurd some (lt_irrefl low)
    | @cons low middle high later more rest ih =>
      rcases le_or_gt t middle with first | second
      · exact ⟨_, List.mem_cons_self, (Point.onPart more.le p).mpr ⟨t, lower, first, here⟩⟩
      · obtain ⟨part, mem, on⟩ := ih (second.trans_le upper) second.le upper
        exact ⟨part, List.mem_cons_of_mem _ mem, on⟩
  · rintro ⟨part, mem, on⟩
    obtain ⟨l, h, first, order, last, rfl⟩ := pieces.inside part mem
    obtain ⟨t, lower, upper, here⟩ := (Point.onPart order.le p).mp on
    exact ⟨t, first.trans lower, upper.trans last, here⟩

theorem Pieces.apart (pieces : Pieces a b low high parts) (differ : a ≠ b) :
    parts.Pairwise fun one other =>
      ∀ p, OnSegment one.1 one.2 p → OnSegment other.1 other.2 p → p = one.2 ∧ p = other.1 := by
  induction pieces with
  | nil low => exact .nil
  | @cons low middle high later more rest ih =>
    refine .cons ?_ ih
    intro other mem p first second
    obtain ⟨l, h, beyond, order, _, rfl⟩ := rest.inside other mem
    obtain ⟨t, _, before, here⟩ := (Point.onPart more.le p).mp first
    obtain ⟨u, after, _, there⟩ := (Point.onPart order.le p).mp second
    obtain rfl : t = u := Point.betweenInj differ (here.symm.trans there)
    obtain rfl : t = middle := le_antisymm before (beyond.trans after)
    obtain rfl : t = l := le_antisymm beyond after
    exact ⟨here, here⟩

theorem Pieces.tiles (pieces : Pieces a b low high parts) (differ : a ≠ b) (some : low < high) :
    Tiles (a.between b low) (a.between b high) parts := ⟨pieces.covers some, pieces.apart differ⟩

end pieces

def Effect.trail? {α : Type} : Effect α → Option (Point α × Point α)
  | .trail start finish _ => some (start, finish)
  | .say _ _ | .pose _ _ _ => none

def trailsOf {α : Type} (effects : List (Effect α)) : List (Point α × Point α) := effects.filterMap Effect.trail?

@[simp] theorem trailsAppend {α : Type} (before later : List (Effect α)) :
    trailsOf (before ++ later) = trailsOf before ++ trailsOf later := List.filterMap_append

def placesOf {α : Type} (effects : List (Effect α)) : List (Point α) := (effects.filterMap Effect.posed?).map (·.1)

section looks
variable {pen : Pen Rat} {t : Transition Rat} {fractions : List Rat} {shown : List (Effect Rat)}

theorem trailsLook (rules : Rules Rat) (pen : Pen Rat) (old : Point Rat) (pose : Pose Rat) :
    trailsOf (rules.look pen old pose) =
      if pen.color = none ∨ old = pose.position then [] else [(old, pose.position)] := by
  rw [Rules.look, trailsAppend]
  unfold Pen.trail
  split
  · rename_i color colored
    rw [Point.beqRat, colored]
    by_cases same : old = pose.position <;> simp [trailsOf, same, Effect.trail?]
  · rename_i plain
    rw [plain]
    rfl

theorem Looks.places {old : Point Rat} (looks : Looks pen t old fractions shown) :
    placesOf shown = fractions.map (t.start.between t.target) := by
  induction looks with
  | nil old => rfl
  | @look old fraction fractions looks rules later ih =>
    have own : placesOf (rules.look pen old (t.poseAt fraction)) = [t.start.between t.target fraction] := by
      unfold placesOf Rules.look Pen.trail
      split
      · split <;> rfl
      · rfl
    rw [List.map_cons, ← ih, ← List.singleton_append, ← own]
    simp only [placesOf, List.filterMap_append, List.map_append]

theorem Transition.staysPut (same : t.start = t.target) (fraction : Rat) :
    (t.poseAt fraction).position = t.start := by
  rw [poseAt, ← same, Point.betweenSame]

theorem Looks.plain {old : Point Rat} (looks : Looks pen t old fractions shown)
    (still : pen.color = none ∨ old = t.start ∧ t.start = t.target) : trailsOf shown = [] := by
  induction looks with
  | nil old => rfl
  | @look old fraction fractions looks rules later ih =>
    have stays : pen.color = none ∨ old = (t.poseAt fraction).position :=
      still.imp_right fun ⟨here, same⟩ => here.trans (Transition.staysPut same fraction).symm
    have next : pen.color = none ∨ (t.poseAt fraction).position = t.start ∧ t.start = t.target :=
      still.imp_right fun ⟨_, same⟩ => ⟨Transition.staysPut same fraction, same⟩
    rw [trailsAppend, trailsLook, if_pos stays, ih next, List.append_nil]

/- Induction on the looks: each one that finds the actor further on adds the part up to there. -/
theorem Looks.pieces {first : Rat} (looks : Looks pen t (t.start.between t.target first) fractions shown)
    (colored : pen.color ≠ none) (differ : t.start ≠ t.target) (onward : (first :: fractions).Pairwise (· ≤ ·)) :
    Pieces t.start t.target first (fractions.getLast?.getD first) (trailsOf shown) := by
  generalize here : t.start.between t.target first = old at looks
  induction looks generalizing first with
  | nil old => exact .nil first
  | @look old fraction fractions looks rules later ih =>
    obtain ⟨before, onward⟩ := List.pairwise_cons.mp onward
    have rest := ih onward rfl
    rw [List.getLast?_cons, Option.getD_some]
    rw [trailsAppend, trailsLook]
    rcases (before fraction List.mem_cons_self).eq_or_lt with rfl | more
    · rw [if_pos (.inr here.symm)]
      exact rest
    · have moves : old ≠ (t.poseAt fraction).position := by
        intro same
        exact more.ne (Point.betweenInj differ (here.trans same))
      rw [if_neg (not_or.mpr ⟨colored, moves⟩), ← here]
      exact .cons more rest

structure Glide (t : Transition Rat) (pen : Pen Rat) (fractions : List Rat) (landed : Bool)
    (shown : List (Effect Rat)) : Prop where
  places : placesOf shown = fractions.map (t.start.between t.target)
  onward : (0 :: fractions).Pairwise (· ≤ ·)
  within : ∀ fraction ∈ fractions, fraction ≤ 1
  arrives : landed = true → (placesOf shown).getLast? = some t.target
  plain : pen.color = none ∨ t.start = t.target → trailsOf shown = []
  pieces : pen.color ≠ none → t.start ≠ t.target →
    Pieces t.start t.target 0 (fractions.getLast?.getD 0) (trailsOf shown)
  tiles : pen.color ≠ none → ∀ place, (placesOf shown).getLast? = some place → place ≠ t.start →
    Tiles t.start place (trailsOf shown)

theorem Transition.Timed.steady (timed : t.Timed) {nows : List Duration} (order : nows.Pairwise (· ≤ ·))
    (landed : Bool) :
    (0 :: t.fractions nows landed).Pairwise (· ≤ ·) ∧ ∀ fraction ∈ t.fractions nows landed, fraction ≤ 1 := by
  have passed : ∀ fraction ∈ nows.map t.progress, 0 ≤ fraction ∧ fraction ≤ 1 := by
    intro fraction mem
    obtain ⟨now, _, rfl⟩ := List.mem_map.mp mem
    exact timed.share now
  have whole : ∀ fraction ∈ (if landed then [Scalar.one] else [] : List Rat), fraction = 1 := by
    intro fraction mem
    cases landed with
    | false => contradiction
    | true => exact List.mem_singleton.mp mem
  have all : ∀ fraction ∈ t.fractions nows landed, 0 ≤ fraction ∧ fraction ≤ 1 := by
    intro fraction mem
    rcases List.mem_append.mp mem with mem | mem
    · exact passed fraction mem
    · rw [whole fraction mem]
      exact ⟨zero_le_one, le_rfl⟩
  refine ⟨.cons (fun fraction mem => (all fraction mem).1) (List.pairwise_append.mpr ⟨?_, ?_, ?_⟩), ?_⟩
  · exact List.pairwise_map.mpr (order.imp (timed.onward _ _))
  · cases landed with
    | false => exact .nil
    | true => exact List.pairwise_singleton _ _
  · intro fraction mem last ending
    rw [whole last ending]
    exact (passed fraction mem).2
  · intro fraction mem
    exact (all fraction mem).2

theorem Looks.glide {nows : List Duration} {landed : Bool} (looks : Looks pen t t.start (t.fractions nows landed) shown)
    (timed : t.Timed) (order : nows.Pairwise (· ≤ ·)) : Glide t pen (t.fractions nows landed) landed shown := by
  obtain ⟨onward, within⟩ := timed.steady order landed
  have places := looks.places
  have pieces (colored : pen.color ≠ none) (differ : t.start ≠ t.target) :
      Pieces t.start t.target 0 ((t.fractions nows landed).getLast?.getD 0) (trailsOf shown) :=
    Looks.pieces (by rwa [Point.betweenZero]) colored differ onward
  refine ⟨places, onward, within, ?_, ?_, pieces, ?_⟩
  · rintro rfl
    have last : (t.fractions nows true).getLast? = some 1 := List.getLast?_concat
    rw [places, List.getLast?_map, last, Option.map_some, Point.betweenOne]
  · intro still
    exact looks.plain (still.imp_right fun same => ⟨rfl, same⟩)
  · intro colored place ends away
    rw [places, List.getLast?_map] at ends
    obtain ⟨fraction, last, rfl⟩ := Option.map_eq_some_iff.mp ends
    have differ : t.start ≠ t.target := by
      intro same
      rw [← same, Point.betweenSame] at away
      exact away rfl
    have low : 0 ≤ fraction := (List.pairwise_cons.mp onward).1 fraction (List.mem_of_getLast? last)
    have ahead : 0 < fraction := by
      refine low.lt_of_ne ?_
      rintro rfl
      exact away (Point.betweenZero _ _)
    have tiles := (pieces colored differ).tiles differ
    rw [last, Option.getD_some, Point.betweenZero] at tiles
    exact tiles ahead

end looks

/- Rational numbers with any sine, cosine and root: motions reach their targets whatever these are. -/
abbrev Trig.exact (cos sin sqrt : Rat → Rat) : Trig Rat where
  cosDegrees := cos
  sinDegrees := sin
  sqrt := sqrt

namespace Playback
variable {σ : Type} [Supply σ Rat]

/- Every motion of a run keeps to its time: all of it has passed just when a tick at the usual pace lands it. What is
shown of a motion from the tick that begins it goes along it, at whatever instants the ticks are, in their order. -/
theorem motionsGlide (cos sin sqrt : Rat → Rat) (rules : Rules Rat) (supply : σ) (beats : List (Rat × Beat σ)) :
    letI := Trig.exact cos sin sqrt
    let p := film rules supply beats
    (∀ t, p.stepper.transition = some t → t.Timed ∧ ∀ beat : Rat × Beat σ, t.startTime ≤ beat.2.now →
      beat.2.pace.accelerate = false → ((p.tickAt rules beat).landed = some t ↔ t.progress beat.2.now = 1)) ∧
    ∀ beat later t, (beat :: later).Pairwise (·.2.now ≤ ·.2.now) →
      let tick := p.tickAt rules beat
      let view := p.showing rules beat later
      tick.taken ≠ [] → tick.stepper.transition = some t →
        t.Timed ∧ t.startTime = beat.2.now ∧ view.1 <:+: (film rules supply (beats ++ beat :: later)).effects ∧
        ∃ nows, nows <+: later.map (·.2.now) ∧ (view.2 = false → nows = later.map (·.2.now)) ∧
          Glide t tick.stepper.pen (t.fractions (beat.2.now :: nows) view.2) view.2 view.1 := by
  let := Trig.exact cos sin sqrt
  intro p
  have coherent : p.stepper.Coherent := filmCoherent rules supply beats
  refine ⟨?_, ?_⟩
  · intro t moving
    have timed := (coherent.sound t moving).timed
    refine ⟨timed, ?_⟩
    intro beat begun slow
    have running : p.stepper.phase ≠ .finished := by
      rw [coherent.steps.mpr (by rw [moving]; rfl)]
      exact Phase.noConfusion
    rw [landsWhenDue running moving slow, timed.ends _ begun, Transition.isDue, decide_eq_true_iff]
  · intro beat later t order tick view began moving
    have timed := (Stepper.tickSound coherent (tickAtDoes rules p beat) moving).timed
    obtain ⟨startTime, nows, early, all, looks⟩ := showingLooks later began moving
    have instants : (beat.2.now :: nows).Pairwise (· ≤ ·) :=
      (List.pairwise_map.mpr order).sublist ((List.cons_prefix_cons.mpr ⟨rfl, early⟩).sublist)
    have shown := showingShown rules supply beats beat later
    exact ⟨timed, startTime, shown, nows, early, all, looks.glide timed instants⟩

theorem motionsGlideInRed :
    letI := Trig.exact (fun _ => 1) (fun _ => 0) id
    let rules : Rules Rat := ⟨1, .ofMillis 1000, .zero, 1, 1⟩
    let walker := film rules (Sequence.ofActions [⟨.color (some "red"), ""⟩, ⟨.step 2, ""⟩]) []
    let first : Rat × Beat (Sequence Rat) := (1, ⟨.zero, {}, id⟩)
    let later := [(1, ⟨.ofMillis 1000, {}, id⟩), (1, ⟨.ofMillis 2000, {}, id⟩)]
    let view := walker.showing rules first later
    view.2 = true ∧ trailsOf view.1 = [(⟨0, 0⟩, ⟨1, 0⟩), (⟨1, 0⟩, ⟨2, 0⟩)] ∧
      Tiles ⟨0, 0⟩ ⟨2, 0⟩ (trailsOf view.1) := by
  let := Trig.exact (fun _ => 1) (fun _ => 0) id
  intro rules walker first later view
  have order : (first :: later).Pairwise (·.2.now ≤ ·.2.now) := by decide +kernel
  have began : (walker.tickAt rules first).taken ≠ [] := by
    rw [← List.isEmpty_eq_false_iff]
    decide +kernel
  have start : (walker.tickAt rules first).stepper.transition.map (·.start) = some ⟨0, 0⟩ := by decide +kernel
  obtain ⟨t, moving, starts⟩ := Option.map_eq_some_iff.mp start
  obtain ⟨_, _, _, _, _, _, glide⟩ := (motionsGlide _ _ _ rules _ []).2 first later t order began moving
  have colored : (walker.tickAt rules first).stepper.pen.color ≠ none := by decide +kernel
  have last : (placesOf view.1).getLast? = some ⟨2, 0⟩ := by decide +kernel
  have tiles := glide.tiles colored ⟨2, 0⟩ last (by rw [starts]; decide +kernel)
  rw [starts] at tiles
  exact ⟨by decide +kernel, by decide +kernel, tiles⟩

end Playback
end TurtleBoard
