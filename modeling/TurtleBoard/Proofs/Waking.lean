import TurtleBoard.Proofs.Bubbles
import TurtleBoard.Proofs.ByteOrder
import TurtleBoard.Proofs.Connection
import TurtleBoard.Proofs.Phases

/-! When actors are ticked. An advance ticks those whose instant has come, each once, in the order of their ids. The
instant of an actor is set when it connects and after each of its ticks, by what the tick reported; so it is known from
the phase of the stepper. No tick comes before it, and none at all once the moves have ended. -/
namespace TurtleBoard

structure Actor.Scheduled (past : List Duration) (a : Actor) : Prop where
  steady : a.stepper.Steady
  asleep : a.wakeAt = none ↔ a.stepper.phase = .finished
  recent : a.stepper.phase = .stepping → ∃ last ∈ past, a.wakeAt = some last

theorem Actor.Scheduled.mono {past more : List Duration} {a : Actor} (scheduled : a.Scheduled past)
    (within : past ⊆ more) : a.Scheduled more where
  steady := scheduled.steady
  asleep := scheduled.asleep
  recent := fun steps => (scheduled.recent steps).imp fun _ last => ⟨within last.1, last.2⟩

namespace Board

theorem wakeNotBefore {now due : Duration} {wake : Wake} (wakes : wakeAfter now wake = some due) : now ≤ due := by
  cases wake with
  | nextFrame =>
    cases wakes
    exact Nat.le_refl _
  | after delay =>
    cases wakes
    exact now.leAdd delay
  | finished => contradiction

variable {ω : Type} [Link ω]

def Outcome.ticked (o : Outcome ω) : List String := o.turns.map (·.id)

def Deed.ticked (d : Deed ω) : List String := d.outcome.ticked

def Deed.instant? (d : Deed ω) : Option Duration :=
  match d.act with
  | .connect now _ | .advance now => some now
  | .resize _ _ | .signal _ | .toggleHold => none

theorem turnRules (b : Board) (now : Duration) (id : String) (actor : Actor) (link : ω) :
    (b.turn now id actor link).1.rules = b.rules := by
  obtain ⟨bubbles, nextBubble, same⟩ := turnBoard b now id actor link
  rw [same]
  rfl

theorem turnPaceOwn (b : Board) (now : Duration) (id : String) (actor : Actor) (link : ω) :
    (b.turn now id actor link).1.pace = (b.tickOf now actor link).pace := by
  obtain ⟨bubbles, nextBubble, same⟩ := turnBoard b now id actor link
  rw [same]

/- The turns of an advance, one after another. Each is a tick of the stepper that the actor had before the advance, at
the pace and over the network that the turn before it left. -/
inductive Round (b : Board) (now : Duration) : Pace → ω → List (Turn ω) → Pace → ω → Prop where
  | nil (pace : Pace) (link : ω) : Round b now pace link [] pace link
  | cons {pace last : Pace} {link left : ω} {turn : Turn ω} {later : List (Turn ω)} {actor : Actor}
      (here : b.actors.get? turn.id = some actor) (due : actor.isDue now = true)
      (tick : turn.tick = actor.stepper.tick b.rules now pace (actor.moves, link))
      (rest : Round b now turn.tick.pace turn.tick.supply.2 later last left) :
      Round b now pace link (turn :: later) last left

/- What an advance does to the actors: a ticked one has what its tick left, and every other one what it had. -/
structure Ticking (b : Board) (now : Duration) (link : ω) (o : Outcome ω) : Prop where
  round : Round b now b.pace link o.turns o.board.pace o.link
  record : ∀ turn ∈ o.turns, ∀ actor, b.actors.get? turn.id = some actor →
    o.board.actors.get? turn.id = some { actor with
      stepper := turn.tick.stepper, moves := turn.tick.supply.1, wakeAt := wakeAfter now turn.tick.wake }
  others : ∀ id, id ∉ o.ticked → o.board.actors.get? id = b.actors.get? id

theorem turnsRound {first b : Board} {now : Duration} {entries : List (String × Actor)} (link : ω)
    (rules : b.rules = first.rules) (current : ∀ entry ∈ entries, first.actors.get? entry.1 = some entry.2) :
    Round first now b.pace link (turns now entries b link).2.2 (turns now entries b link).1.pace
      (turns now entries b link).2.1 := by
  induction entries generalizing b link with
  | nil => exact .nil b.pace link
  | cons entry rest ih =>
    obtain ⟨here, others⟩ := List.forall_mem_cons.mp current
    cases due : entry.2.isDue now with
    | false =>
      simp only [turns, due, Bool.false_eq_true, if_false]
      exact ih link rules others
    | true =>
      simp only [turns, due, if_true]
      have tick : (b.turn now entry.1 entry.2 link).2.2.tick =
          entry.2.stepper.tick first.rules now b.pace (entry.2.moves, link) := by
        rw [turnTick, tickOf, rules]
      have later := ih (b.turn now entry.1 entry.2 link).2.1 ((turnRules b now entry.1 entry.2 link).trans rules) others
      rw [turnPaceOwn, turnLink, ← turnTick b now entry.1] at later
      exact .cons here due tick later

theorem turnsBeyond {id : String} {entries : List (String × Actor)} (below : ∀ entry ∈ entries, id < entry.1)
    (now : Duration) (b : Board) (link : ω) :
    ∀ turn ∈ (turns now entries b link).2.2, id < turn.id := by
  intro turn mem
  have listed : turn.id ∈ (turns now entries b link).2.2.map (·.id) := List.mem_map_of_mem mem
  rw [turnsIds] at listed
  obtain ⟨entry, among, same⟩ := List.mem_map.mp listed
  exact same ▸ below entry (List.mem_filter.mp among).1

/- The turns after that of an actor are of other ids, because the entries are sorted. -/
theorem turnsRecord {now : Duration} {entries : List (String × Actor)} {b : Board} {link : ω}
    (sorted : entries.Pairwise (·.1 < ·.1)) :
    ∀ turn ∈ (turns now entries b link).2.2, ∀ actor, (turn.id, actor) ∈ entries →
      (turns now entries b link).1.actors.get? turn.id = some (actor.ticked now turn.tick) := by
  induction entries generalizing b link with
  | nil => exact fun _ mem => nomatch mem
  | cons entry rest ih =>
    obtain ⟨id, own⟩ := entry
    obtain ⟨below, later⟩ := List.pairwise_cons.mp sorted
    have beyond (c : Board) (left : ω) := turnsBeyond below now c left
    intro turn mem actor among
    cases due : own.isDue now with
    | false =>
      simp only [turns, due, Bool.false_eq_true, if_false] at mem ⊢
      rcases List.mem_cons.mp among with same | among
      · cases same
        exact absurd (beyond b link turn mem) Std.lt_irrefl
      · exact ih later turn mem actor among
    | true =>
      simp only [turns, due, if_true] at mem ⊢
      rcases List.mem_cons.mp mem with rfl | mem
      · have own : actor = own := by
          rcases List.mem_cons.mp among with same | among
          · exact congrArg Prod.snd same
          · exact absurd (below _ among) Std.lt_irrefl
        subst own
        have apart : id ∉ (turns now rest (b.turn now id actor link).1
            (b.turn now id actor link).2.1).2.2.map (·.id) := by
          intro listed
          obtain ⟨turn, mem, same⟩ := List.mem_map.mp listed
          exact absurd (same ▸ beyond _ _ turn mem) Std.lt_irrefl
        obtain ⟨bubbles, nextBubble, same⟩ := turnBoard b now id actor link
        refine (turnsKeep apart).trans ?_
        rw [same]
        exact OrderedMap.getInsertSelf _ _ _
      · rcases List.mem_cons.mp among with same | among
        · cases same
          exact absurd (beyond _ _ turn mem) Std.lt_irrefl
        · exact ih later turn mem actor among

theorem advanceTicking (b : Board) (now : Duration) (link : ω) :
    Ticking b now link (b.perform link (.advance now)) where
  round := turnsRound link (b := b.expire now) rfl (currentEntries b)
  record := by
    intro turn mem actor here
    exact turnsRecord b.actors.sorted turn mem actor ((OrderedMap.memEntries _ _ _).mpr here)
  others := fun _ resting => turnsKeep resting

structure Ticked (b : Board) (now : Duration) (after : Board) (turn : Turn ω) (actor : Actor) : Prop where
  here : b.actors.get? turn.id = some actor
  tick : ∃ (pace : Pace) (link : ω), turn.tick = actor.stepper.tick b.rules now pace (actor.moves, link)
  record : after.actors.get? turn.id = some (actor.ticked now turn.tick)

theorem Round.turn {b : Board} {now : Duration} {pace last : Pace} {link left : ω} {turns : List (Turn ω)}
    (round : Round b now pace link turns last left) : ∀ turn ∈ turns, ∃ actor, b.actors.get? turn.id = some actor ∧
      ∃ (pace : Pace) (link : ω), turn.tick = actor.stepper.tick b.rules now pace (actor.moves, link) := by
  induction round with
  | nil => exact fun _ mem => nomatch mem
  | @cons pace _ link _ _ _ actor here _ tick _ ih =>
    rw [List.forall_mem_cons]
    exact ⟨⟨actor, here, pace, link, tick⟩, ih⟩

theorem Ticking.ticked {b : Board} {now : Duration} {link : ω} {o : Outcome ω} (ticking : Ticking b now link o) :
    ∀ turn ∈ o.turns, ∃ actor, Ticked b now o.board turn actor := by
  intro turn mem
  obtain ⟨actor, here, tick⟩ := ticking.round.turn turn mem
  exact ⟨actor, here, tick, ticking.record turn mem actor here⟩

theorem advanceIds (b : Board) (now : Duration) (link : ω) :
    (b.perform link (.advance now)).ticked = (b.actors.entries.filter fun entry => entry.2.isDue now).map (·.1) :=
  turnsIds now b.actors.entries (b.expire now) link

theorem ticksOnAdvance {b : Board} {act : Act} {link : ω} {id : String} (mem : id ∈ (b.perform link act).ticked) :
    ∃ now, act = .advance now := by
  cases act with
  | advance now => exact ⟨now, rfl⟩
  | connect _ _ | resize _ _ | signal _ | toggleHold => contradiction

theorem memTicked (b : Board) (now : Duration) (link : ω) (id : String) :
    id ∈ (b.perform link (.advance now)).ticked ↔
      ∃ actor due, b.actors.get? id = some actor ∧ actor.wakeAt = some due ∧ due ≤ now := by
  rw [advanceIds, List.mem_map]
  constructor
  · rintro ⟨⟨own, actor⟩, mem, rfl⟩
    obtain ⟨among, due⟩ := List.mem_filter.mp mem
    cases wakes : actor.wakeAt with
    | none =>
      simp only [Actor.isDue, wakes] at due
      contradiction
    | some instant =>
      simp only [Actor.isDue, wakes] at due
      exact ⟨actor, instant, (OrderedMap.memEntries _ _ _).mp among, wakes, of_decide_eq_true due⟩
  · rintro ⟨actor, due, here, wakes, reached⟩
    refine ⟨(id, actor), List.mem_filter.mpr ⟨(OrderedMap.memEntries _ _ _).mpr here, ?_⟩, rfl⟩
    simp only [Actor.isDue, wakes]
    exact decide_eq_true reached

theorem tickedSorted (b : Board) (now : Duration) (link : ω) :
    ((b.perform link (.advance now)).ticked.map Utf8.bytes).Pairwise (· < ·) := by
  rw [advanceIds, List.pairwise_map, List.pairwise_map]
  exact (b.actors.sorted.filter _).imp fun less => (Utf8.lessBytes _ _).mpr less

theorem connectRecords (b : Board) (now : Duration) (newcomers : List Newcomer) (id : String) :
    (b.connect now newcomers).1.actors.get? id = b.actors.get? id ∨
      b.actors.get? id = none ∧
        ∃ newcomer actor, (b.connect now newcomers).1.actors.get? id = some actor ∧ b.Starts now newcomer actor := by
  refine (connectInduct (P := fun after _ => after.config = b.config ∧ (after.actors.get? id = b.actors.get? id ∨
    b.actors.get? id = none ∧ ∃ newcomer actor, after.actors.get? id = some actor ∧ b.Starts now newcomer actor))
    [] now newcomers ⟨rfl, .inl rfl⟩ ?_).2
  rintro after done newcomer absent ⟨config, records⟩
  refine ⟨config, ?_⟩
  by_cases own : newcomer.id = id
  · subst own
    have none := OrderedMap.getAbsent absent
    rcases records with same | ⟨_, _, actor, added, _⟩
    · exact .inr ⟨same.symm.trans none, newcomer, _, OrderedMap.getInsertSelf _ _ _, rfl, rfl, by rw [← config]⟩
    · rw [none] at added
      contradiction
  · have kept : (after.add newcomer now).1.actors.get? id = after.actors.get? id := OrderedMap.getInsertOther _ _ own
    rwa [kept]

theorem performKeeps {b : Board} {act : Act} {link : ω} {id : String} (resting : id ∉ (b.perform link act).ticked) :
    (b.perform link act).board.actors.get? id = b.actors.get? id ∨
      b.actors.get? id = none ∧ ∃ now newcomers newcomer actor, act = .connect now newcomers ∧
        (b.perform link act).board.actors.get? id = some actor ∧ b.Starts now newcomer actor := by
  cases act with
  | connect now newcomers =>
    rcases connectRecords b now newcomers id with same | ⟨absent, newcomer, actor, added, starts⟩
    · exact .inl same
    · exact .inr ⟨absent, now, newcomers, newcomer, actor, rfl, added, starts⟩
  | advance now => exact .inl (turnsKeep resting)
  | resize _ _ | signal _ | toggleHold => exact .inl rfl

theorem Starts.scheduled {b : Board} {now : Duration} {newcomer : Newcomer} {actor : Actor}
    (starts : b.Starts now newcomer actor) (past : List Duration) : actor.Scheduled past := by
  obtain ⟨_, stepper, wakeAt⟩ := starts
  constructor
  · rw [stepper]
    exact nofun
  · rw [stepper, wakeAt]
    exact ⟨nofun, nofun⟩
  · rw [stepper]
    exact nofun

section
variable {b after : Board} {now : Duration} {turn : Turn ω} {actor : Actor}

theorem Ticked.reports (ticked : Ticked b now after turn actor) (steady : actor.stepper.Steady) :
    turn.tick.stepper.Reports b.config.pollInterval turn.tick.wake := by
  obtain ⟨pace, link, tick⟩ := ticked.tick
  rw [tick]
  exact Stepper.tickReports b.rules now pace (actor.moves, link) steady

theorem Ticked.scheduled (ticked : Ticked b now after turn actor) {past : List Duration}
    (scheduled : actor.Scheduled past) : (actor.ticked now turn.tick).Scheduled (past ++ [now]) := by
  have reports := ticked.reports scheduled.steady
  refine ⟨reports.steady, ?_, ?_⟩
  · change wakeAfter now turn.tick.wake = none ↔ turn.tick.stepper.phase = .finished
    generalize turn.tick.wake = wake at reports
    cases reports with
    | steps phase | waits phase => simp only [phase, wakeAfter, reduceCtorEq]
    | ends phase => simp only [phase, wakeAfter]
  · change turn.tick.stepper.phase = .stepping → ∃ last ∈ past ++ [now], wakeAfter now turn.tick.wake = some last
    generalize turn.tick.wake = wake at reports
    intro steps
    cases reports with
    | steps phase => exact ⟨now, List.mem_append_right _ (List.mem_singleton_self _), rfl⟩
    | waits phase | ends phase => cases phase.symm.trans steps

end

theorem runScheduled (config : Config) (draws : Draws) (acts : List (Act × ω)) :
    ∀ id actor, ((ofConfig config draws).after acts).actors.get? id = some actor →
      actor.Scheduled (((ofConfig config draws).deeds acts).filterMap Deed.instant?) := by
  refine runInduct (P := fun b done => ∀ id actor, b.actors.get? id = some actor →
    actor.Scheduled (done.filterMap Deed.instant?)) [] (fun _ _ get => nomatch get) ?_
  intro b done act link _ scheduled id actor get
  rw [List.filterMap_append]
  by_cases ticks : id ∈ (b.perform link act).ticked
  · obtain ⟨now, rfl⟩ := ticksOnAdvance ticks
    obtain ⟨turn, mem, rfl⟩ := List.mem_map.mp ticks
    obtain ⟨before, ticked⟩ := (advanceTicking b now link).ticked turn mem
    cases ticked.record.symm.trans get
    exact ticked.scheduled (scheduled _ _ ticked.here)
  · rcases performKeeps ticks with same | ⟨_, now, newcomers, newcomer, added, rfl, here, starts⟩
    · exact (scheduled id actor (same.symm.trans get)).mono (List.subset_append_left _ _)
    · cases here.symm.trans get
      exact starts.scheduled _

def Sleeps (S : Duration → Prop) (b : Board) (id : String) : Prop :=
  ∃ actor, b.actors.get? id = some actor ∧ ∀ due, actor.wakeAt = some due → S due

section
variable {S : Duration → Prop} (upward : ∀ first later, first ≤ later → S first → S later)
include upward

theorem performSleeps {b : Board} {id : String} (sleeps : Sleeps S b id) (act : Act) (link : ω) :
    Sleeps S (b.perform link act).board id ∧
      ∀ now, act = .advance now → id ∈ (b.perform link act).ticked → S now := by
  obtain ⟨actor, here, within⟩ := sleeps
  by_cases ticks : id ∈ (b.perform link act).ticked
  · obtain ⟨now, rfl⟩ := ticksOnAdvance ticks
    obtain ⟨turn, mem, rfl⟩ := List.mem_map.mp ticks
    obtain ⟨own, ticked⟩ := (advanceTicking b now link).ticked turn mem
    have wakes : S now := by
      obtain ⟨_, due, found, wakes, reached⟩ := (memTicked b now link turn.id).mp ticks
      cases here.symm.trans found
      exact upward due now reached (within due wakes)
    refine ⟨⟨_, ticked.record, fun due later => upward now due (wakeNotBefore later) wakes⟩, ?_⟩
    rintro _ ⟨⟩ _
    exact wakes
  · refine ⟨?_, fun _ _ mem => absurd mem ticks⟩
    rcases performKeeps ticks with same | ⟨absent, _⟩
    · exact ⟨actor, same.trans here, within⟩
    · cases here.symm.trans absent

theorem runSleeps {b : Board} {id : String} (sleeps : Sleeps S b id) (acts : List (Act × ω)) :
    ∀ d ∈ b.deeds acts, ∀ now, d.act = .advance now → id ∈ d.ticked → S now := by
  induction acts generalizing b with
  | nil => exact fun _ mem => nomatch mem
  | cons entry acts ih =>
    obtain ⟨later, here⟩ := performSleeps upward sleeps entry.1 entry.2
    intro d mem
    rcases List.mem_cons.mp mem with rfl | mem
    · exact here
    · exact ih later d mem

end

def NotBefore (due : Duration) (id : String) (run : List (Deed ω)) : Prop :=
  ∀ d ∈ run, ∀ now, d.act = .advance now → id ∈ d.ticked → due ≤ now

theorem notBefore {b : Board} {id : String} {actor : Actor} (here : b.actors.get? id = some actor) {due : Duration}
    (wakes : actor.wakeAt = some due) (acts : List (Act × ω)) : NotBefore due id (b.deeds acts) := by
  refine runSleeps (S := (due ≤ ·)) (fun _ _ le before => Nat.le_trans before le) ⟨actor, here, ?_⟩ acts
  intro other same
  cases wakes.symm.trans same
  exact Nat.le_refl _

theorem neverTicked {b : Board} {id : String} {actor : Actor} (here : b.actors.get? id = some actor)
    (asleep : actor.wakeAt = none) (acts : List (Act × ω)) : ∀ d ∈ b.deeds acts, id ∉ d.ticked := by
  intro d mem ticks
  have never : Sleeps (fun _ => False) b id := ⟨actor, here, fun due wakes => nomatch asleep.symm.trans wakes⟩
  obtain ⟨before, later, split⟩ := List.append_of_mem mem
  obtain ⟨earlier, act, link, rest, _, _, rfl, _⟩ := deedsSplit split
  obtain ⟨now, advances⟩ := ticksOnAdvance ticks
  exact runSleeps (fun _ _ _ none => none) never acts _ mem now advances ticks

theorem nobodyJoins {b : Board} {act : Act} {link : ω} (none : spawnedIn (b.perform link act).calls = [])
    (id : String) : id ∈ (b.perform link act).board.actors.keys ↔ id ∈ b.actors.keys := by
  have lists : Lists b.actors.keys b := fun _ => Iff.rfl
  have joins := (performJoins lists act link).lists id
  rw [none, List.append_nil] at joins
  exact joins.symm

structure Resting (b : Board) : Prop where
  bubbles : b.bubbles = []
  asleep : ∀ id actor, b.actors.get? id = some actor → actor.wakeAt = none

theorem Resting.advance {b : Board} (resting : b.Resting) (now : Duration) (link : ω) :
    b.perform link (.advance now) = { board := b, link } := by
  have nobody : ∀ (entries : List (String × Actor)) (c : Board), (∀ entry ∈ entries, entry.2.wakeAt = none) →
      turns now entries c link = (c, link, []) := by
    intro entries c asleep
    induction entries with
    | nil => rfl
    | cons entry rest ih =>
      have idle : entry.2.isDue now = false := by simp only [Actor.isDue, asleep entry List.mem_cons_self]
      simp only [turns, idle, Bool.false_eq_true, if_false]
      exact ih fun other mem => asleep other (List.mem_cons_of_mem _ mem)
  have asleep : ∀ entry ∈ b.actors.entries, entry.2.wakeAt = none := fun entry mem =>
    resting.asleep entry.1 entry.2 ((OrderedMap.memEntries _ _ _).mp mem)
  have bubbles := resting.bubbles
  obtain ⟨config, width, height, stepSize, pace, actors, standing, nextBubble, draws⟩ := b
  subst bubbles
  simp only [perform, Board.advance, List.partition_eq_filter_filter, List.filter_nil, nobody _ _ asleep]
  rfl

theorem Resting.perform {b : Board} (resting : b.Resting) {act : Act} {link : ω}
    (none : spawnedIn (b.perform link act).calls = []) : (b.perform link act).board.Resting := by
  cases act with
  | advance now =>
    rw [resting.advance now link]
    exact resting
  | resize _ _ | signal _ | toggleHold => exact ⟨resting.bubbles, resting.asleep⟩
  | connect now newcomers =>
    constructor
    · exact connectInduct (P := fun after _ => after.bubbles = []) [] now newcomers resting.bubbles
        fun _ _ _ _ same => same
    · intro id actor here
      have listed : id ∈ (b.perform link (.connect now newcomers)).board.actors.keys :=
        (OrderedMap.memKeys _ _).mpr (OrderedMap.getPresent.mpr ⟨actor, here⟩)
      rw [nobodyJoins none, OrderedMap.memKeys, OrderedMap.getPresent] at listed
      obtain ⟨own, found⟩ := listed
      have kept := connectGetKept b now newcomers found
      cases kept.symm.trans here
      exact resting.asleep id actor found

theorem Resting.after {b : Board} (resting : b.Resting) {acts : List (Act × ω)}
    (none : spawnedIn ((b.deeds acts).flatMap Deed.calls) = []) : (b.after acts).Resting := by
  induction acts generalizing b with
  | nil => exact resting
  | cons entry acts ih =>
    rw [deeds, List.flatMap_cons, spawnedAppend, List.append_eq_nil_iff] at none
    exact ih (resting.perform none.1) none.2

theorem settledResting {b : Board} (asleep : ∀ id actor, b.actors.get? id = some actor →
    (actor.wakeAt = none ↔ actor.stepper.phase = .finished)) (settled : b.isSettled = true) : b.Resting := by
  obtain ⟨empty, finished⟩ := Bool.and_eq_true_iff.mp settled
  refine ⟨List.isEmpty_iff.mp empty, fun id actor here => (asleep id actor here).mpr ?_⟩
  have listed : actor ∈ b.actors.values :=
    List.mem_map.mpr ⟨(id, actor), (OrderedMap.memEntries b.actors id actor).mpr here, rfl⟩
  exact eq_of_beq (List.all_eq_true.mp finished actor listed)

theorem spawnedRecord {b : Board} {now : Duration} {newcomers : List Newcomer} {id : String}
    (mem : id ∈ spawnedIn (b.connect now newcomers).2.1) :
    ∃ newcomer actor, (b.connect now newcomers).1.actors.get? id = some actor ∧ b.Starts now newcomer actor := by
  have lists : Lists b.actors.keys b := fun _ => Iff.rfl
  have joins := connectJoins lists now newcomers
  have new := joins.orderly.once.2 id mem
  rcases connectRecords b now newcomers id with same | ⟨_, starts⟩
  · have there := (joins.lists id).mp (List.mem_append_right _ mem)
    rw [OrderedMap.memKeys, OrderedMap.getPresent, same, ← OrderedMap.getPresent, ← OrderedMap.memKeys] at there
    exact absurd there new
  · exact starts

theorem runConfig (config : Config) (draws : Draws) (acts : List (Act × ω)) :
    ((ofConfig config draws).after acts).config = config := (runBooks config draws 0 0 0 acts).config

theorem runRested (config : Config) (draws : Draws) {acts : List (Act × ω)} {before later : List (Deed ω)}
    {d : Deed ω} (split : (ofConfig config draws).deeds acts = before ++ d :: later) :
    (∀ now newcomers, d.act = .connect now newcomers →
        ∀ id ∈ spawnedIn d.calls, NotBefore (now + config.firstStepDelay) id later) ∧
      (∀ now, d.act = .advance now → ∀ turn ∈ d.outcome.turns, ∀ delay, turn.tick.wake = .after delay →
        delay = config.pollInterval ∧ NotBefore (now + config.pollInterval) turn.id later) ∧
      ∀ id actor, d.before.actors.get? id = some actor → actor.stepper.phase = .finished →
        ∀ e ∈ d :: later, id ∉ e.ticked := by
  obtain ⟨earlier, act, link, rest, _, _, rfl, rfl⟩ := deedsSplit split
  have own := runConfig config draws earlier
  have scheduled := runScheduled config draws earlier
  generalize (ofConfig config draws).after earlier = b at own scheduled
  refine ⟨?_, ?_, ?_⟩
  · rintro now newcomers rfl id mem
    obtain ⟨newcomer, actor, here, starts⟩ := spawnedRecord mem
    rw [← own]
    exact notBefore here starts.wakeAt rest
  · rintro now rfl turn mem delay waits
    obtain ⟨actor, ticked⟩ := (advanceTicking b now link).ticked turn mem
    have reports := ticked.reports (scheduled _ _ ticked.here).steady
    have wakes : (actor.ticked now turn.tick).wakeAt = some (now + delay) := by
      change wakeAfter now turn.tick.wake = some (now + delay)
      rw [waits]
      rfl
    rw [waits] at reports
    cases reports
    rw [← own]
    exact ⟨rfl, notBefore ticked.record wakes rest⟩
  · intro id actor here finished
    have asleep := (scheduled id actor here).asleep.mpr finished
    exact neverTicked here asleep ((act, link) :: rest)

theorem wakesOnTime (config : Config) (draws : Draws) (acts : List (Act × ω)) :
    let b := (ofConfig config draws).after acts
    let run := (ofConfig config draws).deeds acts
    (∀ id actor, b.actors.get? id = some actor → (actor.wakeAt = none ↔ actor.stepper.phase = .finished)) ∧
      (∀ d ∈ run, ∀ now, d.act = .advance now →
        (∃ link, Ticking d.before now link d.outcome) ∧
          (d.ticked.map Utf8.bytes).Pairwise (· < ·) ∧ ∀ id, id ∈ d.ticked ↔
            ∃ actor due, d.before.actors.get? id = some actor ∧ actor.wakeAt = some due ∧ due ≤ now) ∧
      (∀ d ∈ run, (∀ now, d.act ≠ .advance now) → d.ticked = []) ∧
      (∀ before d later, run = before ++ d :: later →
        (∀ now newcomers, d.act = .connect now newcomers →
          ∀ id ∈ spawnedIn d.calls, NotBefore (now + config.firstStepDelay) id later) ∧
        (∀ now, d.act = .advance now → ∀ turn ∈ d.outcome.turns, ∀ delay, turn.tick.wake = .after delay →
          delay = config.pollInterval ∧ NotBefore (now + config.pollInterval) turn.id later) ∧
        ∀ id actor, d.before.actors.get? id = some actor → actor.stepper.phase = .finished →
          ∀ e ∈ d :: later, id ∉ e.ticked) ∧
      ((run.filterMap Deed.instant?).Pairwise (· ≤ ·) → ∀ d ∈ run, ∀ now, d.act = .advance now →
        ∀ id actor, d.before.actors.get? id = some actor → actor.stepper.phase = .stepping → id ∈ d.ticked) ∧
      (b.isSettled = true → ∀ further : List (Act × ω), spawnedIn ((b.deeds further).flatMap Deed.calls) = [] →
        ∀ now (link : ω),
          (b.after further).perform link (.advance now) = { board := b.after further, link }) := by
  intro b run
  have scheduled := runScheduled config draws acts
  have asleep := fun id actor here => (scheduled id actor here).asleep
  have cut : ∀ d ∈ run, ∃ earlier act link rest, run = (ofConfig config draws).deeds earlier ++ d :: rest ∧
      d = ((ofConfig config draws).after earlier).deed act link := by
    intro d mem
    obtain ⟨before, later, split⟩ := List.append_of_mem mem
    obtain ⟨earlier, act, link, _, _, rfl, rfl, _⟩ := deedsSplit split
    exact ⟨earlier, act, link, later, split, rfl⟩
  refine ⟨asleep, ?_, ?_, fun before d later split => runRested config draws split, ?_, ?_⟩
  · intro d mem now advances
    obtain ⟨earlier, act, link, rest, _, rfl⟩ := cut d mem
    obtain rfl : act = .advance now := advances
    exact ⟨⟨link, advanceTicking _ now link⟩, tickedSorted _ now link, memTicked _ now link⟩
  · intro d mem other
    obtain ⟨earlier, act, link, rest, _, rfl⟩ := cut d mem
    refine List.eq_nil_iff_forall_not_mem.mpr fun id ticks => ?_
    obtain ⟨now, advances⟩ := ticksOnAdvance ticks
    exact other now advances
  · intro nondecreasing d mem now advances id actor here steps
    obtain ⟨earlier, act, link, rest, split, rfl⟩ := cut d mem
    obtain rfl : act = .advance now := advances
    -- The actor is due since its last tick, which was at an instant of an earlier deed.
    obtain ⟨last, past, wakes⟩ := (runScheduled config draws earlier id actor here).recent steps
    rw [split, List.filterMap_append, List.pairwise_append] at nondecreasing
    have reached := nondecreasing.2.2 last past now (List.mem_filterMap.mpr ⟨_, List.mem_cons_self, rfl⟩)
    exact (memTicked _ now link id).mpr ⟨actor, last, here, wakes, reached⟩
  · intro settled further none now link
    exact ((settledResting asleep settled).after none).advance now link

end Board
end TurtleBoard
