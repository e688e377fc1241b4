import TurtleBoard.Proofs.Board

/-! Which actors a canvas shows again after a new size. A new size takes the sprites of all actors off the canvas. Once
the next advance has reached every instant that an actor waits for, those that still have moves to come are back. Those
that had finished wait for nothing, so that no tick shows them again. -/
namespace TurtleBoard

namespace Call

def places (id : String) : Call → Bool
  | .place other _ => decide (other = id)
  | _ => false

def clears (id : String) : Call → Bool
  | .spawn other _ | .reset other => decide (other = id)
  | _ => false

end Call

namespace Canvas
variable {id : String} {c : Canvas}

def knows (c : Canvas) (id : String) : Bool := (c.sprites.get? id).isSome

def isPlaced (c : Canvas) (id : String) : Bool := ((c.sprites.get? id).bind (·.placement)).isSome

theorem applyAllAppend (c : Canvas) (first second : List Call) :
    c.applyAll (first ++ second) = (c.applyAll first).applyAll second := List.foldl_append

theorem applyKnows (known : c.knows id = true) (call : Call) : (c.apply call).knows id = true := by
  cases call with
  | spawn other sprite =>
    by_cases own : other = id
    · subst own
      simp only [apply, spawn, knows, OrderedMap.getInsertSelf, Option.isSome_some]
    · simpa only [apply, spawn, knows, OrderedMap.getInsertOther _ _ own] using known
  | place other placement =>
    simp only [apply, place, knows, OrderedMap.getModify]
    split
    · exact Option.isSome_map.trans known
    · exact known
  | reset other =>
    simp only [apply, reset, knows, OrderedMap.getModify]
    split
    · exact Option.isSome_map.trans known
    · exact known
  | resize _ _ | line _ _ _ | «show» _ _ _ | remove _ => exact known

theorem applyAllKnows (known : c.knows id = true) (calls : List Call) : (c.applyAll calls).knows id = true := by
  induction calls generalizing c with
  | nil => exact known
  | cons call calls ih => exact ih (applyKnows known call)

theorem applyPlaced (known : c.knows id = true) (call : Call) :
    (c.apply call).isPlaced id = (!call.clears id && (c.isPlaced id || call.places id)) := by
  cases call with
  | spawn other sprite =>
    by_cases own : other = id
    · subst own
      simp [apply, spawn, isPlaced, Call.clears]
    · simp [apply, spawn, isPlaced, OrderedMap.getInsertOther _ _ own, Call.clears, Call.places, own]
  | place other placement =>
    obtain ⟨sprite, found⟩ := Option.isSome_iff_exists.mp known
    by_cases own : other = id
    · subst own
      simp [apply, place, isPlaced, OrderedMap.getModify, found, Call.clears, Call.places]
    · simp [apply, place, isPlaced, OrderedMap.getModify, Call.clears, Call.places, own, Ne.symm own]
  | reset other =>
    by_cases own : other = id
    · subst own
      simp [apply, reset, isPlaced, OrderedMap.getModify, Call.clears, Call.places]
    · simp [apply, reset, isPlaced, OrderedMap.getModify, Call.clears, Call.places, own, Ne.symm own]
  | resize _ _ | line _ _ _ | «show» _ _ _ | remove _ => simp [Call.clears, Call.places]; rfl

theorem applyAllPlaced (known : c.knows id = true) {calls : List Call} (kept : calls.any (Call.clears id) = false) :
    (c.applyAll calls).isPlaced id = (c.isPlaced id || calls.any (Call.places id)) := by
  induction calls generalizing c with
  | nil => exact (Bool.or_false _).symm
  | cons call calls ih =>
    obtain ⟨keeps, later⟩ := Bool.or_eq_false_iff.mp kept
    have here := applyPlaced known call
    rw [keeps, Bool.not_false, Bool.true_and] at here
    rw [List.any_cons, ← Bool.or_assoc, ← here]
    exact ih (applyKnows known call) later

/- The induction needs both ways to be off the place: before the calls, or by one of those to come. -/
theorem applyAllCleared (known : c.knows id = true) {calls : List Call} (unplaced : calls.any (Call.places id) = false)
    (cleared : c.isPlaced id = false ∨ calls.any (Call.clears id) = true) : (c.applyAll calls).isPlaced id = false := by
  induction calls generalizing c with
  | nil => exact cleared.resolve_right Bool.false_ne_true
  | cons call calls ih =>
    obtain ⟨placesNot, later⟩ := Bool.or_eq_false_iff.mp unplaced
    have here := applyPlaced known call
    rw [placesNot, Bool.or_false] at here
    refine ih (applyKnows known call) later ?_
    rw [List.any_cons, Bool.or_eq_true] at cleared
    rcases cleared with off | clears | clearedLater
    · exact .inl (by rw [here, off, Bool.and_false])
    · exact .inl (by rw [here, clears, Bool.not_true, Bool.false_and])
    · exact .inr clearedLater

end Canvas

namespace Board
variable {ω : Type} [Link ω]

theorem showEffectsPlaces (b : Board) (now : Duration) (id other : String) (offset : Point Float)
    (effects : List (Effect Float)) :
    (b.showEffects now id offset effects).2.any (Call.places other) =
        (decide (id = other) && effects.any Effect.isPose) ∧
      (b.showEffects now id offset effects).2.any (Call.clears other) = false := by
  induction effects generalizing b with
  | nil => exact ⟨(Bool.and_false _).symm, rfl⟩
  | cons effect rest ih =>
    cases effect with
    | trail _ _ _ => exact ih b
    | say _ _ => exact ih _
    | pose position angle walkFrame =>
      obtain ⟨places, clears⟩ := ih b
      refine ⟨?_, clears⟩
      change (decide (id = other) || (b.showEffects now id offset rest).2.any (Call.places other)) =
        (decide (id = other) && (true || rest.any Effect.isPose))
      rw [places]
      cases decide (id = other) <;> rfl

theorem turnPlaces (b : Board) (now : Duration) (id other : String) (actor : Actor) (link : ω) :
    (b.turn now id actor link).2.2.calls.any (Call.places other) =
        (decide (id = other) && decide (actor.stepper.phase ≠ .finished)) ∧
      (b.turn now id actor link).2.2.calls.any (Call.clears other) = false := by
  have shown := showEffectsPlaces { b with pace := (b.tickOf now actor link).pace } now id other actor.offset
    (b.tickOf now actor link).effects
  rw [tickOf, Stepper.tickPoses] at shown
  exact shown

/- The induction is on the entries, so that each turn is that of a record of the board as it was before all turns. -/
theorem turnsPlaces (now : Duration) (id : String) (entries : List (String × Actor)) (b : Board) (link : ω) :
    let calls := (turns now entries b link).2.2.flatMap (·.calls)
    calls.any (Call.places id) = entries.any (fun entry =>
        decide (entry.1 = id) && (entry.2.isDue now && decide (entry.2.stepper.phase ≠ .finished))) ∧
      calls.any (Call.clears id) = false := by
  induction entries generalizing b link with
  | nil => exact ⟨rfl, rfl⟩
  | cons entry rest ih =>
    obtain ⟨other, actor⟩ := entry
    cases due : actor.isDue now with
    | false =>
      obtain ⟨places, clears⟩ := ih b link
      simp only [turns, due, List.any_cons, Bool.false_and, Bool.and_false, Bool.false_or]
      exact ⟨places, clears⟩
    | true =>
      obtain ⟨own, quiet⟩ := turnPlaces b now other id actor link
      obtain ⟨places, clears⟩ := ih (b.turn now other actor link).1 (b.turn now other actor link).2.1
      simp only [turns, due, if_true, List.flatMap_cons, List.any_append, List.any_cons, Bool.true_and, own, quiet,
        places, clears, Bool.or_false, and_self]

theorem advancePlaces (b : Board) (now : Duration) (id : String) (link : ω) :
    (b.advance now link).calls.any (Call.places id) = b.actors.entries.any (fun entry =>
        decide (entry.1 = id) && (entry.2.isDue now && decide (entry.2.stepper.phase ≠ .finished))) ∧
      (b.advance now link).calls.any (Call.clears id) = false := by
  have calls : (b.advance now link).calls = (b.advance now link).expired.map .remove ++
      (turns now b.actors.entries (b.expire now) link).2.2.flatMap (·.calls) := rfl
  have removes (expired : List Nat) : (expired.map Call.remove).any (Call.places id) = false ∧
      (expired.map Call.remove).any (Call.clears id) = false := by
    simp only [List.any_map, List.any_eq_false]
    exact ⟨fun _ _ => Bool.false_ne_true, fun _ _ => Bool.false_ne_true⟩
  obtain ⟨places, clears⟩ := turnsPlaces now id b.actors.entries (b.expire now) link
  rw [calls, List.any_append, List.any_append, (removes _).1, (removes _).2, Bool.false_or, Bool.false_or]
  exact ⟨places, clears⟩

theorem resizePlaces (b : Board) (width height : Float) {id : String} {actor : Actor}
    (here : b.actors.get? id = some actor) :
    (b.resize width height).2.any (Call.places id) = false ∧ (b.resize width height).2.any (Call.clears id) = true := by
  have calls : (b.resize width height).2 =
      .resize width height :: ((b.resize width height).1.ruling ++ b.actors.keys.map .reset) := rfl
  rw [calls]
  constructor
  · rw [List.any_eq_false]
    intro call mem
    rw [List.mem_cons, List.mem_append, ruling, List.mem_map, List.mem_map] at mem
    rcases mem with rfl | ⟨_, _, rfl⟩ | ⟨_, _, rfl⟩ <;> exact Bool.false_ne_true
  · have listed : id ∈ b.actors.keys :=
      List.mem_map.mpr ⟨(id, actor), (OrderedMap.memEntries b.actors id actor).mpr here, rfl⟩
    have reset : Call.reset id ∈ b.actors.keys.map .reset := List.mem_map_of_mem listed
    exact List.any_eq_true.mpr
      ⟨_, List.mem_cons_of_mem _ (List.mem_append_right _ reset), decide_eq_true rfl⟩

end Board

structure Stage where
  board : Board
  canvas : Canvas

namespace Stage
variable {ω : Type} [Link ω]

inductive Op (ω : Type) where
  | act (act : Board.Act) (link : ω)
  | frame
  | invalidate

def empty (config : Config) (draws : Draws) (cols rows : Nat) (walkFrameSize : Int) : Stage :=
  ⟨.ofConfig config draws, .ofSize cols rows walkFrameSize⟩

def after (s : Stage) : Op ω → Stage
  | .act act link =>
      let outcome := s.board.perform link act
      ⟨outcome.board, s.canvas.applyAll outcome.calls⟩
  | .frame => { s with canvas := s.canvas.frameChanges.2 }
  | .invalidate => { s with canvas := s.canvas.invalidate }

def run (s : Stage) (ops : List (Op ω)) : Stage := ops.foldl after s

structure Sound (s : Stage) : Prop where
  known : ∀ {id actor}, s.board.actors.get? id = some actor → s.canvas.knows id = true
  waits : ∀ {id actor}, s.board.actors.get? id = some actor →
    (actor.wakeAt = none ↔ actor.stepper.phase = .finished)

theorem drawSound {b : Board} {c : Canvas} (sound : Sound ⟨b, c⟩) (calls : List Call) :
    Sound ⟨b, c.applyAll calls⟩ := ⟨fun here => Canvas.applyAllKnows (sound.known here) calls, sound.waits⟩

theorem addSound {b : Board} {c : Canvas} (sound : Sound ⟨b, c⟩) (newcomer : Newcomer) (now : Duration) :
    Sound ⟨(b.add newcomer now).1, c.applyAll (b.add newcomer now).2⟩ := by
  obtain ⟨record, actors, stepper, wakeAt⟩ : ∃ record : Actor,
      (b.add newcomer now).1.actors = b.actors.insert newcomer.id record ∧ record.stepper = .initial ∧
        record.wakeAt = some (now + b.config.firstStepDelay) := ⟨_, rfl, rfl, rfl⟩
  obtain ⟨sprite, call, calls⟩ : ∃ sprite call, (b.add newcomer now).2 = [.spawn newcomer.id sprite, call] :=
    ⟨_, _, rfl⟩
  constructor
  · intro id actor here
    by_cases own : newcomer.id = id
    · subst own
      have spawned : (c.spawn newcomer.id sprite).knows newcomer.id = true := by
        simp only [Canvas.spawn, Canvas.knows, OrderedMap.getInsertSelf, Option.isSome_some]
      rw [calls]
      exact Canvas.applyKnows spawned call
    · rw [actors, OrderedMap.getInsertOther _ _ own] at here
      exact Canvas.applyAllKnows (sound.known here) _
  · intro id actor here
    by_cases own : newcomer.id = id
    · subst own
      rw [actors, OrderedMap.getInsertSelf, Option.some.injEq] at here
      subst here
      simp only [stepper, wakeAt, Stepper.initial, reduceCtorEq]
    · rw [actors, OrderedMap.getInsertOther _ _ own] at here
      exact sound.waits here

theorem connectSound {b : Board} {c : Canvas} (sound : Sound ⟨b, c⟩) (now : Duration) (newcomers : List Newcomer) :
    Sound ⟨(b.connect now newcomers).1, c.applyAll (b.connect now newcomers).2.1⟩ := by
  have connected := Board.connectInduct (P := fun b done => Sound ⟨b, c.applyAll done⟩) [] now newcomers sound
  apply connected
  intro b done newcomer _ sound
  rw [Canvas.applyAllAppend]
  exact addSound sound newcomer now

theorem turnSound {b : Board} {c : Canvas} (sound : Sound ⟨b, c⟩) (now : Duration) {id : String} {actor : Actor}
    (here : b.actors.get? id = some actor) (link : ω) : Sound ⟨(b.turn now id actor link).1, c⟩ := by
  obtain ⟨bubbles, nextBubble, after⟩ := Board.turnBoard b now id actor link
  rw [after]
  constructor
  · intro other record there
    by_cases own : id = other
    · subst own
      exact sound.known here
    · exact sound.known ((OrderedMap.getInsertOther _ _ own).symm.trans there)
  · intro other record there
    by_cases own : id = other
    · subst own
      rw [OrderedMap.getInsertSelf, Option.some.injEq] at there
      subst there
      have wake : (b.tickOf now actor link).wake = .finished ↔ _ :=
        Stepper.tickWake b.rules now b.pace (actor.moves, link) actor.stepper
      refine Iff.trans ?_ wake
      simp only [Actor.ticked]
      cases (b.tickOf now actor link).wake <;> simp only [Board.wakeAfter, reduceCtorEq]
    · exact sound.waits ((OrderedMap.getInsertOther _ _ own).symm.trans there)

theorem advanceSound {b : Board} {c : Canvas} (sound : Sound ⟨b, c⟩) (now : Duration) (link : ω) :
    Sound ⟨(b.advance now link).board, c⟩ := by
  have expired : Sound ⟨b.expire now, c⟩ := ⟨sound.known, sound.waits⟩
  exact Board.advanceInduct (P := fun b _ _ => Sound ⟨b, c⟩) expired
    fun b link done id actor here due sound => turnSound sound now here link

theorem afterSound {s : Stage} (sound : s.Sound) (op : Op ω) : (s.after op).Sound := by
  cases op with
  | frame => exact ⟨sound.known, sound.waits⟩
  | invalidate => exact ⟨sound.known, sound.waits⟩
  | act act link =>
    cases act with
    | connect now newcomers => exact connectSound sound now newcomers
    | advance now => exact drawSound (advanceSound sound now link) _
    | resize width height => exact drawSound (b := (s.board.resize width height).1) ⟨sound.known, sound.waits⟩ _
    | signal signal => exact ⟨sound.known, sound.waits⟩
    | toggleHold => exact ⟨sound.known, sound.waits⟩

theorem emptySound (config : Config) (draws : Draws) (cols rows : Nat) (walkFrameSize : Int) :
    (empty config draws cols rows walkFrameSize).Sound := ⟨nofun, nofun⟩

theorem runSound {s : Stage} (sound : s.Sound) (ops : List (Op ω)) : (s.run ops).Sound := by
  induction ops generalizing s with
  | nil => exact sound
  | cons op ops ih => exact ih (afterSound sound op)

theorem resizeClears {s : Stage} (sound : s.Sound) (width height : Float) (link : ω) {id : String} {actor : Actor}
    (here : (s.after (.act (.resize width height) link)).board.actors.get? id = some actor) :
    (s.after (.act (.resize width height) link)).canvas.isPlaced id = false := by
  change s.board.actors.get? id = some actor at here
  obtain ⟨places, clears⟩ := s.board.resizePlaces width height here
  exact Canvas.applyAllCleared (sound.known here) places (.inr clears)

theorem advanceReturns {s : Stage} (sound : s.Sound) {now : Duration} (link : ω)
    (reached : ∀ entry ∈ s.board.actors.entries, ∀ due ∈ entry.2.wakeAt, due ≤ now) {id : String} {actor : Actor}
    (here : s.board.actors.get? id = some actor) (cleared : s.canvas.isPlaced id = false) :
    (s.after (.act (.advance now) link)).canvas.isPlaced id = true ↔ actor.stepper.phase ≠ .finished := by
  obtain ⟨places, clears⟩ := s.board.advancePlaces now id link
  have placed := Canvas.applyAllPlaced (sound.known here) clears
  rw [cleared, Bool.false_or, places] at placed
  change (s.canvas.applyAll (s.board.advance now link).calls).isPlaced id = true ↔ _
  rw [placed, List.any_eq_true]
  constructor
  · rintro ⟨⟨other, record⟩, mem, shown⟩
    simp only [Bool.and_eq_true, decide_eq_true_eq] at shown
    obtain ⟨rfl, _, running⟩ := shown
    have there := (OrderedMap.memEntries s.board.actors other record).mp mem
    rw [here, Option.some.injEq] at there
    exact there ▸ running
  · intro running
    -- Who has not finished waits for an instant, and the advance has reached it.
    obtain ⟨due, waits⟩ := Option.ne_none_iff_exists'.mp (mt (sound.waits here).mp running)
    have mem := (OrderedMap.memEntries s.board.actors id actor).mpr here
    have now := decide_eq_true (reached _ mem due waits)
    refine ⟨(id, actor), mem, ?_⟩
    simp only [Actor.isDue, waits, now, decide_true, Bool.true_and, decide_eq_true running]

theorem backUnlessFinished (config : Config) (draws : Draws) (cols rows : Nat) (walkFrameSize : Int)
    (ops : List (Op ω)) (width height : Float) (link later : ω) (now : Duration) :
    let resized := ((empty config draws cols rows walkFrameSize).run ops).after (.act (.resize width height) link)
    (∀ entry ∈ resized.board.actors.entries, ∀ due ∈ entry.2.wakeAt, due ≤ now) →
      ∀ entry ∈ resized.board.actors.entries, resized.canvas.isPlaced entry.1 = false ∧
        ((resized.after (.act (.advance now) later)).canvas.isPlaced entry.1 = true ↔
          entry.2.stepper.phase ≠ .finished) := by
  intro resized reached entry mem
  have here := (OrderedMap.memEntries resized.board.actors entry.1 entry.2).mp mem
  have sound := runSound (emptySound config draws cols rows walkFrameSize) ops
  have cleared : resized.canvas.isPlaced entry.1 = false := resizeClears sound width height link here
  have resizedSound := afterSound sound (.act (.resize width height) link)
  exact ⟨cleared, advanceReturns resizedSound later reached here cleared⟩

theorem backUnlessFinishedInCompany :
    let away : Replies := ⟨[], []⟩
    let ops : List (Op Replies) := [.act (.connect .zero [.scripted "0" ""]) away,
      .act (.advance (.ofMillis 500)) away, .act (.connect (.ofMillis 500) [.scripted "1" ""]) away]
    let resized := ((empty {} [] 80 24 50).run ops).after (.act (.resize 40.0 20.0) away)
    let advanced := resized.after (.act (.advance (.ofMillis 1000)) away)
    (∀ entry ∈ resized.board.actors.entries, ∀ due ∈ entry.2.wakeAt, due ≤ .ofMillis 1000) ∧
      advanced.canvas.isPlaced "0" = false ∧ advanced.canvas.isPlaced "1" = true := by
  intro away ops resized advanced
  have reached : ∀ entry ∈ resized.board.actors.entries, ∀ due ∈ entry.2.wakeAt, due ≤ .ofMillis 1000 := by decide
  have finished : (resized.board.actors.get? "0").map (·.stepper.phase) = some .finished := by decide
  have idle : (resized.board.actors.get? "1").map (·.stepper.phase) = some .idle := by decide
  have shown : ∀ entry ∈ resized.board.actors.entries, resized.canvas.isPlaced entry.1 = false ∧
      (advanced.canvas.isPlaced entry.1 = true ↔ entry.2.stepper.phase ≠ .finished) :=
    backUnlessFinished {} [] 80 24 50 ops 40.0 20.0 away away (.ofMillis 1000) reached
  clear_value advanced resized
  obtain ⟨first, here, ended⟩ := Option.map_eq_some_iff.mp finished
  obtain ⟨second, there, waiting⟩ := Option.map_eq_some_iff.mp idle
  have stays := (shown _ ((OrderedMap.memEntries _ "0" first).mpr here)).2
  have returns := (shown _ ((OrderedMap.memEntries _ "1" second).mpr there)).2
  refine ⟨reached, Bool.eq_false_iff.mpr fun placed => stays.mp placed ended, returns.mpr ?_⟩
  rw [waiting]
  decide

theorem finishedStaysAway :
    let away : Replies := ⟨[], []⟩
    let ops : List (Op Replies) := [.act (.resize 20.0 30.0) away,
      .act (.connect .zero [.scripted "0" "draw mode\nsay hi"]) away, .act (.advance (.ofMillis 500)) away]
    let resized := ((empty { stepsInEachDirection := 1 } [0, 5, 7] 80 24 50).run ops).after
      (.act (.resize 40.0 20.0) away)
    let advanced := resized.after (.act (.advance (.ofMillis 1000)) away)
    resized.board.actors.keys = ["0"] ∧
      (∀ entry ∈ resized.board.actors.entries, ∀ due ∈ entry.2.wakeAt, due ≤ .ofMillis 1000) ∧
      advanced.canvas.isPlaced "0" = false := by
  intro away ops resized advanced
  have only : resized.board.actors.keys = ["0"] := by decide
  have reached : ∀ entry ∈ resized.board.actors.entries, ∀ due ∈ entry.2.wakeAt, due ≤ .ofMillis 1000 := by decide
  have finished : (resized.board.actors.get? "0").map (·.stepper.phase) = some .finished := by decide
  obtain ⟨actor, here, ended⟩ := Option.map_eq_some_iff.mp finished
  have sound := runSound (emptySound { stepsInEachDirection := 1 } [0, 5, 7] 80 24 50) ops
  have cleared : resized.canvas.isPlaced "0" = false := resizeClears sound 40.0 20.0 away here
  have shown : advanced.canvas.isPlaced "0" = true ↔ actor.stepper.phase ≠ .finished :=
    advanceReturns (afterSound sound (.act (.resize 40.0 20.0) away)) away reached here cleared
  exact ⟨only, reached, Bool.eq_false_iff.mpr fun placed => shown.mp placed ended⟩

end Stage
end TurtleBoard
