import TurtleBoard.Proofs.Board

/-! Actors do not influence one another while no latch is set. What an advance does to an actor with a script, and what
the actor shows in it, is told from its own record and from the scene that all actors share; and neither the turns of
the others nor the operations of the board make a difference to that. -/
namespace TurtleBoard

structure Scene where
  config : Config
  width : Float
  height : Float
  stepSize : Float
  pace : Pace

def Board.scene (b : Board) : Scene := ⟨b.config, b.width, b.height, b.stepSize, b.pace⟩

def Call.unnumbered : Call → Call
  | .show _ position text => .show 0 position text
  | call => call

namespace Scene

def rules (s : Scene) : Rules Float where
  stepSize := s.stepSize
  stepDelay := s.config.stepDelay
  pollInterval := s.config.pollInterval
  walkFrameDistance := s.config.walkFrameDistance
  walkFrames := s.config.walkFrames

def canvasPoint (s : Scene) (offset p : Point Float) : Point Float := Spawn.canvasPoint s.width s.height offset p

def call (s : Scene) (id : String) (offset : Point Float) : Effect Float → Call
  | .trail start finish stroke => .line (s.canvasPoint offset start) (s.canvasPoint offset finish) stroke
  | .say position text => .show 0 (s.canvasPoint offset position) text
  | .pose position angle walkFrame =>
      .place id ⟨s.canvasPoint offset position, angle, Walk.sheetOffset walkFrame s.config.walkFrameSize⟩

end Scene

namespace Actor

def soloTick (a : Actor) (s : Scene) (now : Duration) (sequence : Sequence Float) : Tick (Sequence Float) Float :=
  a.stepper.tick s.rules now s.pace sequence

def solo (a : Actor) (s : Scene) (now : Duration) (sequence : Sequence Float) : Actor :=
  if a.isDue now then
    let tick := a.soloTick s now sequence
    { a with
      stepper := tick.stepper
      moves := .script tick.supply
      wakeAt := Board.wakeAfter now tick.wake }
  else a

def soloCalls (a : Actor) (s : Scene) (now : Duration) (id : String) (sequence : Sequence Float) : List Call :=
  if a.isDue now then (a.soloTick s now sequence).effects.map (s.call id a.offset) else []

end Actor

namespace Board
variable {ω : Type} [Link ω]

theorem scriptTick (b : Board) (now : Duration) {actor : Actor} {sequence : Sequence Float} (link : ω)
    (scripted : actor.moves = .script sequence) :
    b.tickOf now actor link =
      (actor.soloTick b.scene now sequence).mapSupply fun sequence => (Moves.script sequence, link) := by
  rw [tickOf, scripted]
  exact Stepper.tickMap (f := fun sequence : Sequence Float => (Moves.script sequence, link))
    (fun _ => rfl) (fun _ => rfl) b.rules now b.pace sequence actor.stepper

theorem showEffectsCalls (b : Board) (now : Duration) (id : String) (offset : Point Float)
    (effects : List (Effect Float)) :
    (b.showEffects now id offset effects).2.map Call.unnumbered = effects.map (b.scene.call id offset) := by
  induction effects generalizing b with
  | nil => rfl
  | cons effect rest ih =>
    cases effect with
    | trail start finish stroke => exact congrArg (_ :: ·) (ih b)
    | pose position angle walkFrame => exact congrArg (_ :: ·) (ih b)
    | say position text => exact congrArg (_ :: ·) (ih _)

theorem turnScene (b : Board) (now : Duration) (id : String) (actor : Actor) (link : ω)
    (unlatched : b.pace.latched = false) : (b.turn now id actor link).1.scene = b.scene := by
  obtain ⟨bubbles, nextBubble, same⟩ := turnBoard b now id actor link
  rw [same]
  simp only [scene, tickOf, Stepper.tickPace b.rules now (actor.moves, link) actor.stepper unlatched]

theorem turnOwn (b : Board) (now : Duration) (id : String) {actor : Actor} {sequence : Sequence Float} (link : ω)
    (scripted : actor.moves = .script sequence) (due : actor.isDue now = true) :
    (b.turn now id actor link).1.actors.get? id = some (actor.solo b.scene now sequence) ∧
      (b.turn now id actor link).2.2.calls.map Call.unnumbered = actor.soloCalls b.scene now id sequence := by
  have tick := scriptTick b now link scripted
  constructor
  · obtain ⟨bubbles, nextBubble, same⟩ := turnBoard b now id actor link
    rw [same, tick]
    simp only [OrderedMap.getInsertSelf, Actor.solo, due, if_true]
    rfl
  · have shown := showEffectsCalls { b with pace := (b.tickOf now actor link).pace } now id actor.offset
      (b.tickOf now actor link).effects
    have effects : (actor.soloTick b.scene now sequence).effects = (b.tickOf now actor link).effects := by
      rw [tick]
      rfl
    simp only [Actor.soloCalls, due, if_true, effects]
    exact shown

def ownCalls (id : String) (turns : List (Turn ω)) : List Call :=
  ((turns.filter (·.id = id)).flatMap (·.calls)).map Call.unnumbered

theorem turnsAbsent {id : String} {entries : List (String × Actor)} (now : Duration) (b : Board) (link : ω)
    (absent : ∀ entry ∈ entries, entry.1 ≠ id) :
    (turns now entries b link).1.actors.get? id = b.actors.get? id ∧
      ownCalls id (turns now entries b link).2.2 = [] := by
  have resting : id ∉ (turns now entries b link).2.2.map (·.id) := by
    rw [turnsIds, List.mem_map]
    rintro ⟨entry, mem, own⟩
    exact absent entry (List.mem_filter.mp mem).1 own
  have none : (turns now entries b link).2.2.filter (·.id = id) = [] := by
    rw [List.filter_eq_nil_iff]
    intro turn mem own
    exact resting (List.mem_map.mpr ⟨turn, mem, of_decide_eq_true own⟩)
  refine ⟨turnsKeep resting, ?_⟩
  rw [ownCalls, none]
  rfl

/- The induction is on the entries of the map. Turns before the one of the actor leave its record and the scene, turns
after it are of other actors. -/
theorem turnsOwn {id : String} {actor : Actor} {sequence : Sequence Float} {entries : List (String × Actor)}
    (now : Duration) (b : Board) (link : ω) (sorted : entries.Pairwise (·.1 < ·.1)) (mem : (id, actor) ∈ entries)
    (here : b.actors.get? id = some actor) (scripted : actor.moves = .script sequence)
    (unlatched : b.pace.latched = false) :
    (turns now entries b link).1.actors.get? id = some (actor.solo b.scene now sequence) ∧
      ownCalls id (turns now entries b link).2.2 = actor.soloCalls b.scene now id sequence := by
  induction entries generalizing b link with
  | nil => contradiction
  | cons entry rest ih =>
    obtain ⟨below, later⟩ := List.pairwise_cons.mp sorted
    rcases List.mem_cons.mp mem with rfl | among
    · have absent : ∀ entry ∈ rest, entry.1 ≠ id := fun entry mem same => Std.ne_of_lt (below entry mem) same.symm
      cases due : actor.isDue now with
      | false =>
        obtain ⟨kept, silent⟩ := turnsAbsent now b link absent
        simp only [turns, due, Actor.solo, Actor.soloCalls, Bool.false_eq_true, if_false]
        exact ⟨kept.trans here, silent⟩
      | true =>
        obtain ⟨kept, silent⟩ := turnsAbsent now (b.turn now id actor link).1 (b.turn now id actor link).2.1 absent
        obtain ⟨record, calls⟩ := turnOwn b now id link scripted due
        simp only [turns, due, if_true]
        refine ⟨kept.trans record, ?_⟩
        have own : (b.turn now id actor link).2.2.id = id := rfl
        simp only [ownCalls, List.filter_cons, own, decide_true, if_true, List.flatMap_cons,
          List.map_append] at silent ⊢
        rw [calls, silent, List.append_nil]
    · obtain ⟨other, stranger⟩ := entry
      have different : other ≠ id := Std.ne_of_lt (below (id, actor) among)
      cases due : stranger.isDue now with
      | false =>
        simp only [turns, due]
        exact ih b link later among here unlatched
      | true =>
        have scene := turnScene b now other stranger link unlatched
        have steady := (congrArg (·.pace.latched) scene).trans unlatched
        obtain ⟨record, calls⟩ := ih (b.turn now other stranger link).1 (b.turn now other stranger link).2.1 later among
          ((getTurnOther b now stranger link different).trans here) steady
        rw [scene] at record calls
        simp only [turns, due, if_true]
        refine ⟨record, ?_⟩
        have unlike : (b.turn now other stranger link).2.2.id ≠ id := different
        simp only [ownCalls, List.filter_cons, unlike, decide_false] at calls ⊢
        exact calls

def Act.isSteady : Act → Bool
  | .advance _ | .resize _ _ | .signal .holdPressed | .signal .holdReleased | .toggleHold => true
  | .connect _ _ | .signal .latchPressed | .signal .latchReleased => false

structure Twins (id : String) (left right : Board) : Prop where
  scene : left.scene = right.scene
  unlatched : left.pace.latched = false
  record : ∃ actor sequence, left.actors.get? id = some actor ∧ right.actors.get? id = some actor ∧
    actor.moves = .script sequence

def isResetOf (id : String) : Call → Bool
  | .reset other => other = id
  | _ => false

def Outcome.own (id : String) (o : Outcome ω) : List Call := ownCalls id o.turns ++ o.calls.filter (isResetOf id)

theorem showEffectsResets (b : Board) (now : Duration) (id other : String) (offset : Point Float)
    (effects : List (Effect Float)) :
    (b.showEffects now id offset effects).2.filter (isResetOf other) = [] := by
  induction effects generalizing b with
  | nil => rfl
  | cons effect rest ih =>
    cases effect with
    | trail _ _ _ => exact ih b
    | pose _ _ _ => exact ih b
    | say _ _ => exact ih _

theorem advanceResets (b : Board) (now : Duration) (id : String) (link : ω) :
    (b.advance now link).calls.filter (isResetOf id) = [] := by
  have turns : ((b.advance now link).turns.flatMap (·.calls)).filter (isResetOf id) = [] := by
    refine advanceInduct (P := fun _ _ done => (done.flatMap (·.calls)).filter (isResetOf id) = []) rfl ?_
    intro b link done other actor _ _ silent
    simp only [List.flatMap_append, List.filter_append, silent, List.flatMap_singleton, List.nil_append]
    exact showEffectsResets _ now other id actor.offset _
  have expired : ((b.advance now link).expired.map Call.remove).filter (isResetOf id) = [] := by
    simp only [List.filter_eq_nil_iff, List.mem_map]
    rintro _ ⟨bubble, _, rfl⟩ resets
    contradiction
  rw [Advance.calls, List.filter_append, expired, turns, List.append_nil]

theorem advanceOwn {b : Board} {id : String} {actor : Actor} {sequence : Sequence Float} (now : Duration) (link : ω)
    (here : b.actors.get? id = some actor) (scripted : actor.moves = .script sequence)
    (unlatched : b.pace.latched = false) :
    (b.perform link (.advance now)).board.scene = b.scene ∧
      (b.perform link (.advance now)).board.actors.get? id = some (actor.solo b.scene now sequence) ∧
      (b.perform link (.advance now)).own id = actor.soloCalls b.scene now id sequence := by
  have mem := (OrderedMap.memEntries b.actors id actor).mpr here
  have scene : (b.advance now link).board.scene = b.scene := by
    refine advanceInduct (P := fun after _ _ => after.scene = b.scene) rfl ?_
    intro after link _ id actor _ _ same
    exact (turnScene after now id actor link ((congrArg (·.pace.latched) same).trans unlatched)).trans same
  obtain ⟨record, calls⟩ := turnsOwn now (b.expire now) link b.actors.sorted mem here scripted unlatched
  refine ⟨scene, record, ?_⟩
  simp only [Outcome.own, perform, advanceResets, List.append_nil]
  exact calls

theorem resizeOwn {b : Board} {id : String} {actor : Actor} (width height : Float) (link : ω)
    (here : b.actors.get? id = some actor) : (b.perform link (.resize width height)).own id = [.reset id] := by
  have ruled (b : Board) : b.ruling.filter (isResetOf id) = [] := by
    simp only [ruling, List.filter_eq_nil_iff, List.mem_map]
    rintro _ ⟨line, _, rfl⟩ resets
    contradiction
  have resets : (b.actors.keys.map Call.reset).filter (isResetOf id) = [Call.reset id] := by
    have once := congrArg (List.map Call.reset) (OrderedMap.keysFilter here)
    rw [List.filter_map]
    exact once
  have calls (b' : Board) :
      (Call.resize width height :: (b'.ruling ++ b.actors.keys.map Call.reset)).filter (isResetOf id) =
        [Call.reset id] := by
    rw [List.filter_cons_of_neg (by simp [isResetOf]), List.filter_append, ruled, resets, List.nil_append]
  exact calls _

theorem twinsSignal {id : String} {left right : Board} (twins : Twins id left right) {signal : Signal}
    (hold : signal = .holdPressed ∨ signal = .holdReleased) : Twins id (left.signal signal) (right.signal signal) := by
  obtain ⟨scene, unlatched, record⟩ := twins
  refine ⟨?_, ?_, record⟩
  · exact congrArg (fun s : Scene => { s with pace := s.pace.after signal }) scene
  · rcases hold with rfl | rfl <;> exact unlatched

theorem twinsResize {id : String} {left right : Board} (twins : Twins id left right) (width height : Float) :
    Twins id (left.resize width height).1 (right.resize width height).1 := by
  obtain ⟨scene, unlatched, record⟩ := twins
  exact ⟨congrArg (fun s : Scene => Scene.mk s.config width height
    (Ruling.stepSize s.config.stepsInEachDirection width height) s.pace) scene, unlatched, record⟩

theorem twinsAdvance {τ : Type} [Link τ] {id : String} {left right : Board} (twins : Twins id left right)
    (now : Duration) (link : ω) (other : τ) :
    Twins id (left.perform link (.advance now)).board (right.perform other (.advance now)).board ∧
      (left.perform link (.advance now)).own id = (right.perform other (.advance now)).own id := by
  obtain ⟨scene, unlatched, actor, sequence, here, there, scripted⟩ := twins
  have unlatched' : right.pace.latched = false := (congrArg (·.pace.latched) scene).symm.trans unlatched
  obtain ⟨kept, record, calls⟩ := advanceOwn now link here scripted unlatched
  obtain ⟨kept', record', calls'⟩ := advanceOwn now other there scripted unlatched'
  rw [← scene] at kept' record' calls'
  refine ⟨⟨kept.trans kept'.symm, ?_, ?_⟩, calls.trans calls'.symm⟩
  · exact (congrArg (·.pace.latched) kept).trans unlatched
  · cases due : actor.isDue now with
    | false =>
      simp only [Actor.solo, due, Bool.false_eq_true, if_false] at record record'
      exact ⟨actor, sequence, record, record', scripted⟩
    | true =>
      simp only [Actor.solo, due, if_true] at record record'
      exact ⟨_, _, record, record', rfl⟩

theorem twinsPerform {τ : Type} [Link τ] {id : String} {left right : Board} (twins : Twins id left right) (link : ω)
    (other : τ) {act : Act} (steady : act.isSteady = true) :
    Twins id (left.perform link act).board (right.perform other act).board ∧
      (left.perform link act).own id = (right.perform other act).own id := by
  cases act with
  | connect _ _ => contradiction
  | advance now => exact twinsAdvance twins now link other
  | resize width height =>
    obtain ⟨actor, _, here, there, _⟩ := twins.record
    exact ⟨twinsResize twins width height, (resizeOwn width height link here).trans
      (resizeOwn width height other there).symm⟩
  | signal signal =>
    cases signal with
    | holdPressed => exact ⟨twinsSignal twins (.inl rfl), rfl⟩
    | holdReleased => exact ⟨twinsSignal twins (.inr rfl), rfl⟩
    | latchPressed => contradiction
    | latchReleased => contradiction
  | toggleHold =>
    have pace : left.pace = right.pace := congrArg Scene.pace twins.scene
    refine ⟨?_, rfl⟩
    simp only [perform, toggleHold, ← pace]
    apply twinsSignal twins
    cases left.pace.accelerate
    · exact .inl rfl
    · exact .inr rfl

def story (id : String) (b : Board) (link : ω) : List Act → List (Option Actor × List Call)
  | [] => []
  | act :: acts =>
      let outcome := b.perform link act
      (outcome.board.actors.get? id, outcome.own id) :: story id outcome.board outcome.link acts

theorem storiesAgree {τ : Type} [Link τ] {id : String} {left right : Board} (twins : Twins id left right) (link : ω)
    (other : τ) {acts : List Act} (steady : ∀ act ∈ acts, act.isSteady = true) :
    left.story id link acts = right.story id other acts ∧
      ∀ moment ∈ left.story id link acts, moment.1.isSome = true := by
  induction acts generalizing left right link other with
  | nil => exact ⟨rfl, fun _ mem => nomatch mem⟩
  | cons act acts ih =>
    obtain ⟨later, calls⟩ := twinsPerform twins link other (steady act List.mem_cons_self)
    obtain ⟨same, present⟩ := ih later (left.perform link act).link (right.perform other act).link
      fun act mem => steady act (List.mem_cons_of_mem _ mem)
    obtain ⟨actor, _, here, there, _⟩ := later.record
    constructor
    · simp only [story, same, calls, here, there]
    · intro moment mem
      rcases List.mem_cons.mp mem with rfl | mem
      · simp only [here, Option.isSome_some]
      · exact present moment mem

def speaker : Actor where
  stepper := .initial
  moves := .script (.ofActions (Script.parse "draw mode\nforward 2\nsay hi"))
  offset := ⟨0.0, 0.0⟩
  sprite := "red"
  wakeAt := some .zero

def alone : Board :=
  let bare := Board.ofConfig {} []
  { bare with actors := bare.actors.insert "b" speaker }

def inCompany : Board :=
  { alone with
    actors := alone.actors.insert "a" { speaker with moves := .script (.ofActions (Script.parse "draw mode\nsay ho")) }
    nextBubble := 4 }

theorem storiesAgreeInCompany :
    Twins "b" alone inCompany ∧
      let acts := [.resize 90.0 90.0, .advance .zero, .signal .holdPressed, .advance (.ofMillis 600), .toggleHold]
      alone.story "b" (Replies.mk [] []) acts = inCompany.story "b" (Replies.mk [] []) acts ∧
        ∀ moment ∈ alone.story "b" (Replies.mk [] []) acts, moment.1.isSome = true := by
  have twins : Twins "b" alone inCompany := by
    refine ⟨rfl, rfl, speaker, _, OrderedMap.getInsertSelf _ _ _, ?_, rfl⟩
    exact (OrderedMap.getInsertOther _ _ (by decide)).trans (OrderedMap.getInsertSelf _ _ _)
  exact ⟨twins, storiesAgree twins _ _ (by decide)⟩

end Board
end TurtleBoard
