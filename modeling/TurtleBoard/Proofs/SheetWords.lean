import TurtleBoard.Proofs.Gait
import TurtleBoard.Proofs.Settings

/-! The walk cycle in words of 32 bits. Frames are counted without a sign and offsets on the sheet with one, so doubling
the frames, adding the standing frame and multiplying with the width of a frame all have a last value that fits. Below
the ends every value fits for any number of strides; a config may have frames and widths beyond them. -/
namespace TurtleBoard

namespace Walk

def count? (n : Int) : Option Nat := if 0 ≤ n ∧ n < 4294967296 then some n.toNat else none

def IsSize (n : Int) : Prop := -2147483648 ≤ n ∧ n ≤ 2147483647

instance (n : Int) : Decidable (IsSize n) := inferInstanceAs (Decidable (_ ∧ _))

def size? (n : Int) : Option Int := if IsSize n then some n else none

def frameInWords? (frames strides : Nat) : Option Nat := do
  let frames := max frames 1
  let doubled ← count? (frames * 2)
  let period ← count? (doubled - 1)
  let sum ← count? (strides % period + (frames - 1) / 2 : Nat)
  let turn := sum % period
  if frames - 1 < turn then count? (period - turn) else some turn

def offsetInWords? (frame : Nat) (size : Int) : Option Int := do
  let index ← size? frame
  let opposite ← size? (-index)
  size? (opposite * size)

theorem countIff {n : Int} {m : Nat} : count? n = some m ↔ n = m ∧ n < 4294967296 := by
  rw [count?, Option.ite_none_right_eq_some, Option.some_inj]
  omega

theorem sizeIff {n m : Int} : size? n = some m ↔ IsSize n ∧ n = m := by
  rw [size?, Option.ite_none_right_eq_some, Option.some_inj]

theorem frameInside (frames strides : Nat) : frameAt frames strides < max frames 1 := by
  have turn := Nat.mod_lt (strides % period frames + standing frames) (Nat.zero_lt_of_lt (standingIn frames).2)
  simp only [frameAt]
  split
  · assumption
  · unfold period at *
    omega

structure CycleFits (frames strides : Nat) : Prop where
  doubled : frames ≤ 2147483647
  summed : strides % period frames + standing frames < 4294967296

theorem frameInWordsIff {frames strides frame : Nat} :
    frameInWords? frames strides = some frame ↔ CycleFits frames strides ∧ frame = frameAt frames strides := by
  have whole : 2 * max frames 1 - 1 = period frames := rfl
  have middle : (max frames 1 - 1) / 2 = standing frames := rfl
  have shown {turn : Nat} (small : turn < period frames) (wide : frames ≤ 2147483647) :
      (if max frames 1 - 1 < turn then count? (period frames - turn) else some turn) =
        some (if turn < max frames 1 then turn else period frames - turn) := by
    by_cases forward : turn < max frames 1
    · rw [if_pos forward, if_neg (by omega)]
    · rw [if_neg forward, if_pos (by omega), countIff]
      omega
  have inside (sum : Nat) : sum % period frames < period frames :=
    Nat.mod_lt sum (Nat.zero_lt_of_lt (standingIn frames).2)
  simp only [frameInWords?, Option.bind_eq_bind, Option.bind_eq_some_iff, countIff]
  constructor
  · rintro ⟨doubled, ⟨twice, small⟩, cycle, ⟨less, -⟩, sum, ⟨added, fits⟩, read⟩
    have wide : frames ≤ 2147483647 := by omega
    obtain rfl : cycle = period frames := by omega
    obtain rfl : strides % period frames + standing frames = sum := by rw [← middle]; omega
    rw [shown (inside _) wide, Option.some_inj] at read
    exact ⟨⟨wide, by omega⟩, read.symm⟩
  · rintro ⟨⟨wide, fits⟩, rfl⟩
    refine ⟨max frames 1 * 2, by omega, period frames, by omega, strides % period frames + standing frames, ?_, ?_⟩
    · rw [← middle] at fits ⊢
      omega
    · exact shown (inside _) wide

theorem offsetInWordsIff {frame : Nat} {size offset : Int} :
    offsetInWords? frame size = some offset ↔
      frame ≤ 2147483647 ∧ IsSize (sheetOffset frame size) ∧ offset = sheetOffset frame size := by
  simp only [offsetInWords?, Option.bind_eq_bind, Option.bind_eq_some_iff, sizeIff, sheetOffset]
  constructor
  · rintro ⟨_, ⟨small, rfl⟩, _, ⟨-, rfl⟩, fits, rfl⟩
    exact ⟨by unfold IsSize at small; omega, fits, rfl⟩
  · rintro ⟨small, fits, rfl⟩
    exact ⟨frame, ⟨by unfold IsSize; omega, rfl⟩, -frame, ⟨by unfold IsSize; omega, rfl⟩, fits, rfl⟩

structure FitsWords (frames : Nat) (size : Int) (strides : Nat) : Prop where
  cycle : CycleFits frames strides
  shifted : IsSize (sheetOffset (frameAt frames strides) size)

theorem shownInWords {frames strides : Nat} {size offset : Int} :
    (frameInWords? frames strides).bind (offsetInWords? · size) = some offset ↔
      FitsWords frames size strides ∧ offset = sheetOffset (frameAt frames strides) size := by
  simp only [Option.bind_eq_some_iff, frameInWordsIff, offsetInWordsIff]
  constructor
  · rintro ⟨_, ⟨cycle, rfl⟩, -, shifted, rfl⟩
    exact ⟨⟨cycle, shifted⟩, rfl⟩
  · rintro ⟨⟨cycle, shifted⟩, rfl⟩
    have last := frameInside frames strides
    have wide := cycle.doubled
    exact ⟨_, ⟨cycle, rfl⟩, by omega, shifted, rfl⟩

theorem lastFrame (frames : Nat) : frameAt frames (max frames 1 - 1 - standing frames) = max frames 1 - 1 := by
  have turn : max frames 1 - 1 < period frames := by unfold period; omega
  have sum : max frames 1 - 1 - standing frames + standing frames = max frames 1 - 1 := by unfold standing; omega
  rw [frameAt, Nat.mod_eq_of_lt (Nat.lt_of_le_of_lt (Nat.sub_le _ _) turn), sum, Nat.mod_eq_of_lt turn]
  exact if_pos (by omega)

structure SheetFits (frames : Nat) (size : Int) : Prop where
  few : frames ≤ 1717986919
  above : -2147483647 ≤ (max frames 1 - 1 : Nat) * size
  below : (max frames 1 - 1 : Nat) * size ≤ 2147483648

theorem sheetFitsIff {frames : Nat} {size : Int} :
    (∀ strides, FitsWords frames size strides) ↔ SheetFits frames size := by
  constructor
  · intro fits
    have summed := (fits (period frames - 1)).cycle.summed
    have shifted := (fits (max frames 1 - 1 - standing frames)).shifted
    rw [lastFrame, sheetOffset, IsSize, Int.neg_mul] at shifted
    rw [Nat.mod_eq_of_lt (Nat.sub_lt (Nat.zero_lt_of_lt (standingIn frames).2) Nat.one_pos)] at summed
    refine ⟨?_, by omega, by omega⟩
    unfold period standing at summed
    omega
  · rintro ⟨few, above, below⟩ strides
    have turn := Nat.mod_lt strides (Nat.zero_lt_of_lt (standingIn frames).2)
    refine ⟨⟨by omega, ?_⟩, ?_⟩
    · unfold period standing at *
      omega
    · have last : (frameAt frames strides : Int) ≤ (max frames 1 - 1 : Nat) :=
        Int.ofNat_le.mpr (Nat.le_sub_one_of_lt (frameInside frames strides))
      have first : (0 : Int) ≤ frameAt frames strides := Int.natCast_nonneg _
      rw [IsSize, sheetOffset, Int.neg_mul]
      rcases Int.le_total 0 size with wide | wide
      · have most := Int.mul_le_mul_of_nonneg_right last wide
        have least := Int.mul_nonneg first wide
        omega
      · have least := Int.mul_le_mul_of_nonpos_right last wide
        have most := Int.mul_nonpos_of_nonneg_of_nonpos first wide
        omega

end Walk

namespace Config
open Json

theorem readInWords {v : Json} {c : Config} (read : ofJson? v = some c) :
    c.walkFrames < 4294967296 ∧ Walk.IsSize c.walkFrameSize := by
  rw [ofJson?, Option.bind_eq_bind, Option.bind_eq_some_iff] at read
  obtain ⟨values, -, read⟩ := read
  split at read
  · simp only [Option.bind_eq_bind, Option.bind_eq_some_iff, Option.pure_def, Option.some.injEq, count?,
      settlesIff natIff, settlesIff intIff] at read
    obtain ⟨_, -, _, -, _, -, _, -, _, -, _, -, _, -, _, -, _, -, frames, counted, size, sized, _, -, rfl⟩ := read
    constructor
    · cases counted with
      | absent => exact (by decide : ({} : Config).walkFrames < 4294967296)
      | given meaning =>
        obtain ⟨small⟩ := meaning
        exact small
    · cases sized with
      | absent => exact (by decide : Walk.IsSize ({} : Config).walkFrameSize)
      | given meaning =>
        simp only [Walk.IsSize]
        cases meaning with
        | above small => omega
        | below some small => omega
  · contradiction

theorem loadInWords (file : Option ByteArray) :
    (load file).walkFrames < 4294967296 ∧ Walk.IsSize (load file).walkFrameSize := by
  rw [load]
  cases found : file.bind ofBytes? with
  | none => decide
  | some c =>
    obtain ⟨bytes, -, read⟩ := Option.bind_eq_some_iff.mp found
    simp only [ofBytes?, Option.bind_eq_bind, Option.bind_eq_some_iff] at read
    obtain ⟨_, -, _, -, read⟩ := read
    exact readInWords read

def strides (c : Config) (distance : Float) : Nat := Walk.strides distance c.walkFrameDistance

def sheetOffset (c : Config) (distance : Float) : Int :=
  Walk.sheetOffset (Walk.frame distance c.walkFrameDistance c.walkFrames) c.walkFrameSize

def sheetOffsetInWords? (c : Config) (distance : Float) : Option Int :=
  (Walk.frameInWords? c.walkFrames (c.strides distance)).bind (Walk.offsetInWords? · c.walkFrameSize)

end Config

theorem Stepper.framesShown {α σ : Type} [Trig α] {rules : Rules α} {now : Duration} {pace : Pace} {s : Stepper α}
    {tick : Tick σ α} (does : s.Does rules now pace tick) :
    ∀ frame ∈ framesOf tick.effects, frame = 0 ∨ ∃ distance, frame = rules.frame distance := by
  intro frame mem
  by_cases running : s.phase = .finished
  · cases does with
    | nothing _ _ _ _ effects =>
      rw [effects] at mem
      contradiction
    | shows => contradiction
    | begins => contradiction
    | ends => contradiction
  · cases moving : s.transition with
    | some t =>
      rw [framesMoving does running moving] at mem
      obtain ⟨distance, -, rfl⟩ := List.mem_map.mp mem
      exact .inr ⟨distance, rfl⟩
    | none =>
      rw [framesResting does running moving] at mem
      rcases List.mem_cons.mp mem with rfl | mem
      · exact .inl rfl
      · obtain ⟨distance, -, rfl⟩ := List.mem_map.mp mem
        exact .inr ⟨distance, rfl⟩

namespace Board
variable {ω : Type} [Link ω]

theorem showEffectsFrames (b : Board) (now : Duration) (id : String) (offset : Point Float)
    (effects : List (Effect Float)) {other : String} {placement : Placement}
    (placed : Call.place other placement ∈ (b.showEffects now id offset effects).2) :
    ∃ frame ∈ framesOf effects, placement.sheetOffset = Walk.sheetOffset frame b.config.walkFrameSize := by
  induction effects generalizing b with
  | nil => contradiction
  | cons effect rest ih =>
    cases effect with
    | trail _ _ _ =>
      rcases List.mem_cons.mp placed with line | placed
      · contradiction
      · exact ih b placed
    | say _ _ =>
      rcases List.mem_cons.mp placed with show' | placed
      · contradiction
      · obtain ⟨frame, mem, same⟩ := ih _ placed
        exact ⟨frame, mem, same⟩
    | pose position angle walkFrame =>
      rcases List.mem_cons.mp placed with own | placed
      · cases own
        exact ⟨walkFrame, List.mem_cons_self, rfl⟩
      · obtain ⟨frame, mem, same⟩ := ih b placed
        exact ⟨frame, List.mem_cons_of_mem _ mem, same⟩

theorem turnsFrames (b : Board) (now : Duration) (link : ω) :
    (b.advance now link).board.config = b.config ∧
      ∀ turn ∈ (b.advance now link).turns, ∀ id placement, Call.place id placement ∈ turn.calls →
        placement.sheetOffset = 0 ∨ ∃ distance, placement.sheetOffset = b.config.sheetOffset distance := by
  refine advanceInduct (P := fun (after : Board) (_ : ω) (done : List (Turn ω)) => after.config = b.config ∧
    ∀ turn ∈ done, ∀ id placement, Call.place id placement ∈ turn.calls →
      placement.sheetOffset = 0 ∨ ∃ distance, placement.sheetOffset = b.config.sheetOffset distance)
    ⟨rfl, fun _ mem => nomatch mem⟩ ?_
  intro after link done id actor _ _ ⟨config, shown⟩
  obtain ⟨_, _, same⟩ := turnBoard after now id actor link
  refine ⟨by rw [same]; exact config, ?_⟩
  intro turn mem other placement placed
  rcases List.mem_append.mp mem with earlier | own
  · exact shown turn earlier other placement placed
  · rw [List.mem_singleton.mp own] at placed
    obtain ⟨frame, among, offset⟩ := showEffectsFrames _ now id actor.offset _ placed
    rw [offset, ← config]
    rcases Stepper.framesShown (Stepper.tickDoes after.rules now after.pace _ actor.stepper) frame among with
      rfl | ⟨distance, rfl⟩
    · exact .inl (Int.zero_mul _)
    · exact .inr ⟨distance, rfl⟩

theorem advanceFrames (b : Board) (now : Duration) (link : ω) {id : String} {placement : Placement}
    (placed : Call.place id placement ∈ (b.advance now link).calls) :
    placement.sheetOffset = 0 ∨ ∃ distance, placement.sheetOffset = b.config.sheetOffset distance := by
  rcases List.mem_append.mp placed with removed | placed
  · obtain ⟨_, -, same⟩ := List.mem_map.mp removed
    contradiction
  · obtain ⟨turn, mem, placed⟩ := List.mem_flatMap.mp placed
    exact (turnsFrames b now link).2 turn mem id placement placed

end Board

namespace Config

structure Sheet (c : Config) : Prop where
  frames : c.walkFrames < 4294967296
  size : Walk.IsSize c.walkFrameSize
  computed : ∀ (distance : Float) (offset : Int), c.sheetOffsetInWords? distance = some offset ↔
    Walk.FitsWords c.walkFrames c.walkFrameSize (c.strides distance) ∧ offset = c.sheetOffset distance
  always : (∀ strides, Walk.FitsWords c.walkFrames c.walkFrameSize strides) ↔
    Walk.SheetFits c.walkFrames c.walkFrameSize
  joins : ∀ (b : Board) (now : Duration) (newcomers : List Newcomer) (id : String) (placement : Placement),
    b.config = c → Call.place id placement ∈ (b.connect now newcomers).2.1 →
      placement.sheetOffset = c.sheetOffset 0.0
  shows : ∀ (ω : Type) [Link ω] (b : Board) (now : Duration) (link : ω) (id : String) (placement : Placement),
    b.config = c → Call.place id placement ∈ (b.advance now link).calls →
      placement.sheetOffset = 0 ∨ ∃ distance, placement.sheetOffset = c.sheetOffset distance

/- A loaded config has a number of frames and a width in 32 bits. Every value that its sheet needs fits, after any
number of strides, exactly if the frames and the offset of the last one are not too many. -/
theorem sheetInWords (file : Option ByteArray) : Sheet (load file) where
  frames := (loadInWords file).1
  size := (loadInWords file).2
  computed := fun _ _ => Walk.shownInWords
  always := Walk.sheetFitsIff
  joins := by
    intro b now newcomers id placement own placed
    have nought : Number.IsNought (0.0 : Float).toModel.unpack := trivial
    rw [Board.connectStands b now newcomers id placement placed, own, sheetOffset, Walk.frameNought nought]
  shows := by
    intro _ _ b now link id placement own placed
    rw [← own]
    exact Board.advanceFrames b now link placed

def manyFrames : String := "\x7b\"walk_frames\": 3000000000\x7d"

def wideFrames : String := "\x7b\"walk_frames\": 3, \"walk_frame_size\": 2147483647\x7d"

theorem sheetLeavesWords :
    (load (some manyFrames.toUTF8)).walkFrames = 3000000000 ∧ Walk.count? (3000000000 * 2) = none ∧
      (∀ distance, (load (some manyFrames.toUTF8)).sheetOffsetInWords? distance = none) ∧
      (load (some wideFrames.toUTF8)).sheetOffset 2.0 = -4294967294 ∧ ¬Walk.IsSize (-4294967294) ∧
      (load (some wideFrames.toUTF8)).sheetOffsetInWords? 2.0 = none := by
  have many : (load (some manyFrames.toUTF8)).walkFrames = 3000000000 := by decide +kernel
  have shifted : (load (some wideFrames.toUTF8)).sheetOffset 2.0 = -4294967294 := by decide +kernel
  have far : ¬Walk.IsSize (-4294967294) := by decide
  refine ⟨many, rfl, ?_, shifted, far, ?_⟩
  · intro distance
    rw [Option.eq_none_iff_forall_ne_some]
    intro offset computed
    have doubled := (Walk.shownInWords.mp computed).1.cycle.doubled
    rw [many] at doubled
    exact absurd doubled (by decide)
  · rw [Option.eq_none_iff_forall_ne_some]
    intro offset computed
    rw [← shifted] at far
    exact far (Walk.shownInWords.mp computed).1.shifted

end Config

end TurtleBoard
