import TurtleBoard.Board
import TurtleBoard.Proofs.OrderedMap
import TurtleBoard.Proofs.Taking

/-! What the operations of a board change, said once. Showing effects only numbers bubbles; a turn writes the speed
keys, the bubbles and its own actor; the turns of an advance are those of the actors that are due, each with the
record that the board had of it. -/
namespace TurtleBoard

def Actor.ticked {ω : Type} (a : Actor) (now : Duration) (tick : Tick (Moves × ω) Float) : Actor :=
  { a with stepper := tick.stepper, moves := tick.supply.1, wakeAt := Board.wakeAfter now tick.wake }

namespace Board
variable {ω : Type} [Link ω]

theorem showEffectsBoard (b : Board) (now : Duration) (id : String) (offset : Point Float)
    (effects : List (Effect Float)) :
    ∃ bubbles nextBubble, (b.showEffects now id offset effects).1 = { b with bubbles, nextBubble } := by
  induction effects generalizing b with
  | nil => exact ⟨b.bubbles, b.nextBubble, rfl⟩
  | cons effect rest ih =>
    cases effect with
    | trail _ _ _ => exact ih b
    | pose _ _ _ => exact ih b
    | say _ _ =>
      obtain ⟨bubbles, nextBubble, same⟩ := ih
        { b with
          nextBubble := b.nextBubble + 1
          bubbles := b.bubbles ++ [⟨b.nextBubble, now + b.config.bubbleTtl⟩] }
      exact ⟨bubbles, nextBubble, same⟩

def tickOf (b : Board) (now : Duration) (actor : Actor) (link : ω) : Tick (Moves × ω) Float :=
  actor.stepper.tick b.rules now b.pace (actor.moves, link)

theorem turnBoard (b : Board) (now : Duration) (id : String) (actor : Actor) (link : ω) :
    let tick := b.tickOf now actor link
    ∃ bubbles nextBubble, (b.turn now id actor link).1 =
      { b with pace := tick.pace, bubbles, nextBubble, actors := b.actors.insert id (actor.ticked now tick) } := by
  intro tick
  obtain ⟨bubbles, nextBubble, same⟩ :=
    showEffectsBoard { b with pace := tick.pace } now id actor.offset tick.effects
  refine ⟨bubbles, nextBubble, ?_⟩
  simp only [turn, tick, tickOf] at same ⊢
  rw [same]
  rfl

theorem turnLink (b : Board) (now : Duration) (id : String) (actor : Actor) (link : ω) :
    (b.turn now id actor link).2.1 = (b.tickOf now actor link).supply.2 := rfl

theorem turnTick (b : Board) (now : Duration) (id : String) (actor : Actor) (link : ω) :
    (b.turn now id actor link).2.2.tick = b.tickOf now actor link := rfl

theorem getTurnOther (b : Board) (now : Duration) {id other : String} (actor : Actor) (link : ω)
    (different : id ≠ other) : (b.turn now id actor link).1.actors.get? other = b.actors.get? other := by
  obtain ⟨bubbles, nextBubble, same⟩ := turnBoard b now id actor link
  rw [same]
  exact OrderedMap.getInsertOther _ _ different

theorem turnsIds (now : Duration) (entries : List (String × Actor)) (b : Board) (link : ω) :
    (turns now entries b link).2.2.map (·.id) = (entries.filter fun entry => entry.2.isDue now).map (·.1) := by
  induction entries generalizing b link with
  | nil => rfl
  | cons entry rest ih =>
    cases due : entry.2.isDue now with
    | false => simp only [turns, due, Bool.false_eq_true, if_false, List.filter_cons, ih]
    | true =>
      simp only [turns, due, if_true, List.filter_cons, List.map_cons, ih]
      rfl

theorem turnsKeep {id : String} {now : Duration} {entries : List (String × Actor)} {b : Board} {link : ω}
    (resting : id ∉ (turns now entries b link).2.2.map (·.id)) :
    (turns now entries b link).1.actors.get? id = b.actors.get? id := by
  induction entries generalizing b link with
  | nil => rfl
  | cons entry rest ih =>
    cases due : entry.2.isDue now with
    | false =>
      simp only [turns, due, Bool.false_eq_true, if_false] at resting ⊢
      exact ih resting
    | true =>
      simp only [turns, due, if_true, List.map_cons, List.mem_cons, not_or] at resting ⊢
      exact (ih resting.2).trans (getTurnOther b now entry.2 link (Ne.symm resting.1))

/- What holds before the turns and is kept by the turn of any actor that is due, as the board has it, holds after them.
The actors still to come are as the board has them, because their ids are others than those before them. -/
theorem turnsInduct {P : Board → ω → List (Turn ω) → Prop} {now : Duration} {entries : List (String × Actor)}
    {b : Board} {link : ω} (done : List (Turn ω)) (sorted : entries.Pairwise (·.1 < ·.1))
    (current : ∀ entry ∈ entries, b.actors.get? entry.1 = some entry.2) (start : P b link done)
    (keeps : ∀ b link done id actor, b.actors.get? id = some actor → actor.isDue now = true → P b link done →
      P (b.turn now id actor link).1 (b.turn now id actor link).2.1 (done ++ [(b.turn now id actor link).2.2])) :
    P (turns now entries b link).1 (turns now entries b link).2.1 (done ++ (turns now entries b link).2.2) := by
  induction entries generalizing b link done with
  | nil => simpa only [turns, List.append_nil] using start
  | cons entry rest ih =>
    obtain ⟨id, actor⟩ := entry
    obtain ⟨below, later⟩ := List.pairwise_cons.mp sorted
    have here : b.actors.get? id = some actor := current _ List.mem_cons_self
    cases due : actor.isDue now with
    | false =>
      simp only [turns, due]
      exact ih done later (fun entry mem => current entry (List.mem_cons_of_mem _ mem)) start
    | true =>
      have others : ∀ entry ∈ rest, (b.turn now id actor link).1.actors.get? entry.1 = some entry.2 := by
        intro entry mem
        rw [getTurnOther b now actor link (Std.ne_of_lt (below entry mem))]
        exact current entry (List.mem_cons_of_mem _ mem)
      have rest := ih _ later others (keeps b link done id actor here due start)
      simpa only [turns, due, if_true, List.append_assoc, List.singleton_append] using rest

theorem currentEntries (b : Board) : ∀ entry ∈ b.actors.entries, b.actors.get? entry.1 = some entry.2 :=
  fun entry mem => (OrderedMap.memEntries b.actors entry.1 entry.2).mp mem

/- The board once the bubbles that are due have gone, before anyone is ticked. -/
def expire (b : Board) (now : Duration) : Board :=
  { b with bubbles := (b.bubbles.partition fun bubble : Bubble => decide (bubble.expiresAt ≤ now)).2 }

theorem advanceInduct {P : Board → ω → List (Turn ω) → Prop} {b : Board} {now : Duration} {link : ω}
    (start : P (b.expire now) link [])
    (keeps : ∀ b link done id actor, b.actors.get? id = some actor → actor.isDue now = true → P b link done →
      P (b.turn now id actor link).1 (b.turn now id actor link).2.1 (done ++ [(b.turn now id actor link).2.2])) :
    P (b.advance now link).board (b.advance now link).link (b.advance now link).turns :=
  turnsInduct [] b.actors.sorted (currentEntries b) start keeps

theorem addGet (b : Board) (newcomer : Newcomer) (now : Duration) (id : String) :
    (id ≠ newcomer.id → (b.add newcomer now).1.actors.get? id = b.actors.get? id) ∧
      ∃ actor, (b.add newcomer now).1.actors.get? newcomer.id = some actor ∧ actor.moves = newcomer.moves := by
  constructor
  · intro different
    exact OrderedMap.getInsertOther _ _ (Ne.symm different)
  · exact ⟨_, OrderedMap.getInsertSelf _ _ _, rfl⟩

theorem connectGet (b : Board) (now : Duration) (newcomers : List Newcomer) (id : String) :
    (b.connect now newcomers).1.actors.get? id = b.actors.get? id ∨
      b.actors.get? id = none ∧ ∃ newcomer ∈ newcomers, newcomer.id = id ∧
        ∃ actor, (b.connect now newcomers).1.actors.get? id = some actor ∧ actor.moves = newcomer.moves := by
  induction newcomers generalizing b with
  | nil => exact .inl rfl
  | cons newcomer rest ih =>
    rw [connect]
    cases present : b.actors.contains newcomer.id with
    | true =>
      rcases ih b with same | ⟨absent, other, mem, found⟩
      · exact .inl same
      · exact .inr ⟨absent, other, List.mem_cons_of_mem _ mem, found⟩
    | false =>
      obtain ⟨others, actor, added, moves⟩ := addGet b newcomer now id
      by_cases own : id = newcomer.id
      · subst own
        refine .inr ⟨OrderedMap.getAbsent present, newcomer, List.mem_cons_self, rfl, actor, ?_, moves⟩
        rcases ih (b.add newcomer now).1 with same | ⟨absent, _⟩
        · exact same.trans added
        · rw [added] at absent
          contradiction
      · rcases ih (b.add newcomer now).1 with same | ⟨absent, other, mem, found⟩
        · exact .inl (same.trans (others own))
        · exact .inr ⟨(others own).symm.trans absent, other, List.mem_cons_of_mem _ mem, found⟩

theorem connectInduct {P : Board → List Call → Prop} {b : Board} (done : List Call) (now : Duration)
    (newcomers : List Newcomer) (start : P b done)
    (keeps : ∀ b done newcomer, b.actors.contains newcomer.id = false → P b done →
      P (b.add newcomer now).1 (done ++ (b.add newcomer now).2)) :
    P (b.connect now newcomers).1 (done ++ (b.connect now newcomers).2.1) := by
  induction newcomers generalizing b done with
  | nil => simpa only [connect, List.append_nil] using start
  | cons newcomer rest ih =>
    rw [connect]
    split
    · exact ih done start
    · rename_i absent
      have later := ih _ (keeps b done newcomer (Bool.eq_false_iff.mpr absent) start)
      simpa only [List.append_assoc] using later

inductive Act where
  | connect (now : Duration) (newcomers : List Newcomer)
  | advance (now : Duration)
  | resize (width height : Float)
  | signal (signal : Signal)
  | toggleHold

structure Outcome (ω : Type) where
  board : Board
  link : ω
  calls : List Call := []
  turns : List (Turn ω) := []

def perform (b : Board) (link : ω) : Act → Outcome ω
  | .connect now newcomers =>
      let (board, calls, _) := b.connect now newcomers
      { board, link, calls }
  | .advance now =>
      let advance := b.advance now link
      { board := advance.board, link := advance.link, calls := advance.calls, turns := advance.turns }
  | .resize width height =>
      let (board, calls) := b.resize width height
      { board, link, calls }
  | .signal signal => { board := b.signal signal, link }
  | .toggleHold => { board := b.toggleHold, link }

end Board
end TurtleBoard
