import Mathlib.Data.Finset.Card
import TurtleBoard.Proofs.Runs

/-! How actors come onto a board. Along a run every actor is spawned once and placed at once, none is moved before that,
and those that were spawned are those that the board has. A batch connects the first newcomer of each id that is not
there yet; the others make no difference to anything, so that a batch connects only once. -/
namespace TurtleBoard

namespace Call

def spawned? : Call → Option String
  | .spawn id _ => some id
  | _ => none

def moved? : Call → Option String
  | .place id _ | .reset id => some id
  | _ => none

def names (id : String) (call : Call) : Prop := call.spawned? = some id ∨ call.moved? = some id

end Call

def spawnedIn (calls : List Call) : List String := calls.filterMap Call.spawned?

@[simp] theorem spawnedAppend (before later : List Call) :
    spawnedIn (before ++ later) = spawnedIn before ++ spawnedIn later := List.filterMap_append

/- Calls after which each actor has come on once, in their order: it is new when it is spawned, is placed at once, and
is not moved before. The actors known from the start have come on before the calls. -/
inductive Orderly : List String → List Call → Prop where
  | nil (known : List String) : Orderly known []
  | spawn {known : List String} {id sprite : String} {placement : Placement} {calls : List Call}
      (new : id ∉ known) (later : Orderly (known ++ [id]) calls) :
      Orderly known (.spawn id sprite :: .place id placement :: calls)
  | other {known : List String} {call : Call} {calls : List Call} (spawnsNone : call.spawned? = none)
      (here : ∀ id, call.moved? = some id → id ∈ known) (later : Orderly known calls) : Orderly known (call :: calls)

namespace Orderly
variable {known : List String}

theorem append {first second : List Call} (before : Orderly known first)
    (after : Orderly (known ++ spawnedIn first) second) : Orderly known (first ++ second) := by
  induction before with
  | nil known => simpa only [spawnedIn, List.filterMap_nil, List.append_nil, List.nil_append] using after
  | spawn new later ih =>
    refine .spawn new (ih ?_)
    simpa only [spawnedIn, List.filterMap_cons, Call.spawned?, List.append_assoc, List.singleton_append] using after
  | other spawnsNone here later ih =>
    refine .other spawnsNone here (ih ?_)
    simpa only [spawnedIn, List.filterMap_cons, spawnsNone] using after

theorem still {calls : List Call}
    (quiet : ∀ call ∈ calls, call.spawned? = none ∧ ∀ id, call.moved? = some id → id ∈ known) :
    Orderly known calls ∧ spawnedIn calls = [] := by
  constructor
  · induction calls with
    | nil => exact .nil known
    | cons call calls ih =>
      obtain ⟨spawnsNone, here⟩ := quiet call List.mem_cons_self
      exact .other spawnsNone here (ih fun call mem => quiet call (List.mem_cons_of_mem _ mem))
  · exact List.filterMap_eq_nil_iff.mpr fun call mem => (quiet call mem).1

theorem once {calls : List Call} (orderly : Orderly known calls) :
    (spawnedIn calls).Nodup ∧ ∀ id ∈ spawnedIn calls, id ∉ known := by
  induction orderly with
  | nil known => exact ⟨List.nodup_nil, fun _ mem => nomatch mem⟩
  | @spawn known id sprite placement calls new later ih =>
    obtain ⟨distinct, apart⟩ := ih
    have own : spawnedIn (.spawn id sprite :: .place id placement :: calls) = id :: spawnedIn calls := rfl
    rw [own, List.nodup_cons]
    refine ⟨⟨fun again => apart id again (by simp), distinct⟩, fun other mem => ?_⟩
    rcases List.mem_cons.mp mem with rfl | mem
    · exact new
    · exact fun there => apart other mem (List.mem_append_left _ there)
  | @other known call calls spawnsNone here later ih =>
    have same : spawnedIn (call :: calls) = spawnedIn calls := List.filterMap_cons_none spawnsNone
    rw [same]
    exact ih

theorem placed {before later : List Call} {id sprite : String}
    (orderly : Orderly known (before ++ .spawn id sprite :: later)) :
    ∃ placement rest, later = .place id placement :: rest := by
  generalize split : before ++ .spawn id sprite :: later = calls at orderly
  induction orderly generalizing before with
  | nil known => exact absurd split (List.append_ne_nil_of_right_ne_nil _ (List.cons_ne_nil _ _))
  | @spawn known own look placement calls new after ih =>
    match before with
    | [] =>
      cases split
      exact ⟨placement, calls, rfl⟩
    | [first] => cases split
    | first :: second :: before =>
      injection split with _ split
      injection split with _ split
      exact ih split
  | @other known call calls spawnsNone here after ih =>
    cases before with
    | nil =>
      cases split
      contradiction
    | cons first before =>
      injection split with _ split
      exact ih split

theorem moved {before later : List Call} {call : Call} {id : String}
    (orderly : Orderly known (before ++ call :: later)) (moves : call.moved? = some id) :
    id ∈ known ++ spawnedIn before := by
  generalize split : before ++ call :: later = calls at orderly
  induction orderly generalizing before with
  | nil known => exact absurd split (List.append_ne_nil_of_right_ne_nil _ (List.cons_ne_nil _ _))
  | @spawn known own sprite placement calls new after ih =>
    match before with
    | [] =>
      cases split
      contradiction
    | [first] =>
      cases split
      cases moves
      simp [spawnedIn, Call.spawned?]
    | first :: second :: before =>
      injection split with head split
      injection split with next split
      have later := ih split
      subst head next
      simpa only [spawnedIn, List.filterMap_cons, Call.spawned?, List.append_assoc, List.singleton_append] using later
  | @other known first calls spawnsNone here after ih =>
    cases before with
    | nil =>
      cases split
      exact List.mem_append_left _ (here id moves)
    | cons other before =>
      injection split with head split
      subst head
      have later := ih split
      simpa only [spawnedIn, List.filterMap_cons, spawnsNone] using later

end Orderly

namespace Board
variable {ω : Type} [Link ω]

def Lists (known : List String) (b : Board) : Prop := ∀ id, id ∈ known ↔ id ∈ b.actors.keys

structure Joins (known : List String) (calls : List Call) (after : Board) : Prop where
  orderly : Orderly known calls
  lists : Lists (known ++ spawnedIn calls) after

theorem Joins.still {known : List String} {calls : List Call} {after : Board} (lists : Lists known after)
    (quiet : ∀ call ∈ calls, call.spawned? = none ∧ ∀ id, call.moved? = some id → id ∈ known) :
    Joins known calls after := by
  obtain ⟨orderly, none⟩ := Orderly.still quiet
  refine ⟨orderly, ?_⟩
  rwa [none, List.append_nil]

theorem Joins.trans {known : List String} {first second : List Call} {middle after : Board}
    (before : Joins known first middle) (later : Joins (known ++ spawnedIn first) second after) :
    Joins known (first ++ second) after := by
  refine ⟨before.orderly.append later.orderly, ?_⟩
  rw [spawnedAppend, ← List.append_assoc]
  exact later.lists

theorem addJoins {known : List String} {b : Board} (lists : Lists known b) {newcomer : Newcomer} (now : Duration)
    (absent : b.actors.contains newcomer.id = false) : Joins known (b.add newcomer now).2 (b.add newcomer now).1 := by
  have new : newcomer.id ∉ known := fun mem => by
    rw [lists, OrderedMap.memKeys, absent] at mem
    contradiction
  constructor
  · exact .spawn new (.nil _)
  · intro id
    have keys := OrderedMap.memKeysInsert b.actors newcomer.id id
    change id ∈ known ++ [newcomer.id] ↔ id ∈ (b.actors.insert newcomer.id _).keys
    rw [List.mem_append, List.mem_singleton, lists, keys, or_comm]

theorem connectJoins {known : List String} {b : Board} (lists : Lists known b) (now : Duration)
    (newcomers : List Newcomer) : Joins known (b.connect now newcomers).2.1 (b.connect now newcomers).1 := by
  refine connectInduct (P := fun after done => Joins known done after) [] now newcomers ?_ ?_
  · exact .still lists fun _ mem => nomatch mem
  · intro after done newcomer absent joins
    exact joins.trans (addJoins joins.lists now absent)

theorem showEffectsMoves (b : Board) (now : Duration) (id : String) (offset : Point Float)
    (effects : List (Effect Float)) :
    ∀ call ∈ (b.showEffects now id offset effects).2,
      call.spawned? = none ∧ ∀ other, call.moved? = some other → other = id := by
  induction effects generalizing b with
  | nil => exact fun _ mem => nomatch mem
  | cons effect rest ih =>
    intro call mem
    cases effect with
    | trail start finish stroke =>
      rcases List.mem_cons.mp mem with rfl | mem
      · exact ⟨rfl, nofun⟩
      · exact ih b call mem
    | pose position angle walkFrame =>
      rcases List.mem_cons.mp mem with rfl | mem
      · exact ⟨rfl, fun other own => (Option.some.inj own).symm⟩
      · exact ih b call mem
    | say position text =>
      rcases List.mem_cons.mp mem with rfl | mem
      · exact ⟨rfl, nofun⟩
      · exact ih _ call mem

theorem turnJoins {known : List String} {b : Board} (lists : Lists known b) (now : Duration) {id : String}
    {actor : Actor} (here : b.actors.get? id = some actor) (link : ω) :
    Joins known (b.turn now id actor link).2.2.calls (b.turn now id actor link).1 := by
  have listed : id ∈ b.actors.keys := (OrderedMap.memKeys _ _).mpr (OrderedMap.getPresent.mpr ⟨actor, here⟩)
  apply Joins.still
  · obtain ⟨bubbles, nextBubble, same⟩ := turnBoard b now id actor link
    intro other
    rw [same, lists, OrderedMap.memKeysInsert]
    exact ⟨.inr, fun mem => mem.elim (fun own => own ▸ listed) fun mem => mem⟩
  · intro call mem
    obtain ⟨spawnsNone, own⟩ := showEffectsMoves { b with pace := (b.tickOf now actor link).pace } now id actor.offset
      (b.tickOf now actor link).effects call mem
    exact ⟨spawnsNone, fun other moves => (lists other).mpr (own other moves ▸ listed)⟩

theorem advanceJoins {known : List String} {b : Board} (lists : Lists known b) (now : Duration) (link : ω) :
    Joins known (b.advance now link).calls (b.advance now link).board := by
  have expired : Joins known ((b.advance now link).expired.map .remove) (b.expire now) := by
    refine .still lists fun call mem => ?_
    obtain ⟨number, _, rfl⟩ := List.mem_map.mp mem
    exact ⟨rfl, nofun⟩
  refine advanceInduct (P := fun (after : Board) (_ : ω) (done : List (Turn ω)) =>
    Joins known ((b.advance now link).expired.map .remove ++ done.flatMap (·.calls)) after) ?_ ?_
  · rwa [List.flatMap_nil, List.append_nil]
  · intro after link done id actor here _ joins
    rw [List.flatMap_append, List.flatMap_singleton, ← List.append_assoc]
    exact joins.trans (turnJoins joins.lists now here link)

theorem resizeJoins {known : List String} {b : Board} (lists : Lists known b) (width height : Float) :
    Joins known (b.resize width height).2 (b.resize width height).1 := by
  refine .still lists fun call mem => ?_
  simp only [resize, ruling, List.mem_cons, List.mem_append, List.mem_map] at mem
  rcases mem with rfl | ⟨_, _, rfl⟩ | ⟨id, listed, rfl⟩
  · exact ⟨rfl, nofun⟩
  · exact ⟨rfl, nofun⟩
  · exact ⟨rfl, fun other own => (lists other).mpr (Option.some.inj own ▸ listed)⟩

theorem performJoins {known : List String} {b : Board} (lists : Lists known b) (act : Act) (link : ω) :
    Joins known (b.perform link act).calls (b.perform link act).board := by
  cases act with
  | connect now newcomers => exact connectJoins lists now newcomers
  | advance now => exact advanceJoins lists now link
  | resize width height => exact resizeJoins lists width height
  | signal signal => exact .still lists fun _ mem => nomatch mem
  | toggleHold => exact .still lists fun _ mem => nomatch mem

theorem runJoins {known : List String} {b : Board} (lists : Lists known b) (acts : List (Act × ω)) :
    Joins known ((b.deeds acts).flatMap Deed.calls) (b.after acts) := by
  refine runInduct (P := fun after done => Joins known (done.flatMap Deed.calls) after) [] ?_ ?_
  · exact .still lists fun _ mem => nomatch mem
  · intro after done act link _ joins
    rw [List.flatMap_append, List.flatMap_singleton]
    exact joins.trans (performJoins joins.lists act link)

theorem afterKeeps {b : Board} (acts : List (Act × ω)) {id : String} (here : id ∈ b.actors.keys) :
    id ∈ (b.after acts).actors.keys := by
  have lists : Lists b.actors.keys b := fun _ => Iff.rfl
  exact ((runJoins lists acts).lists id).mp (List.mem_append_left _ here)

theorem connectKnown (b : Board) (now : Duration) {newcomer : Newcomer} (known : newcomer.id ∈ b.actors.keys)
    (rest : List Newcomer) : b.connect now (newcomer :: rest) = b.connect now rest := by
  rw [connect, if_pos ((OrderedMap.memKeys _ _).mp known)]

theorem connectAppend (b : Board) (now : Duration) (first second : List Newcomer) :
    b.connect now (first ++ second) =
      let before := b.connect now first
      let after := before.1.connect now second
      (after.1, before.2.1 ++ after.2.1, before.2.2 + after.2.2) := by
  induction first generalizing b with
  | nil => simp [connect]
  | cons newcomer first ih =>
    rw [List.cons_append, connect, connect]
    split
    · exact ih b
    · simp [ih, List.append_assoc, Nat.add_right_comm]

theorem memConnect (b : Board) (now : Duration) (newcomers : List Newcomer) (id : String) :
    id ∈ (b.connect now newcomers).1.actors.keys ↔ id ∈ b.actors.keys ∨ id ∈ newcomers.map (·.id) := by
  induction newcomers generalizing b with
  | nil => simp [connect]
  | cons newcomer rest ih =>
    by_cases known : newcomer.id ∈ b.actors.keys
    · rw [connectKnown b now known, ih, List.map_cons, List.mem_cons]
      grind
    · rw [connect, if_neg (mt (OrderedMap.memKeys _ _).mpr known)]
      have added := OrderedMap.memKeysInsert b.actors newcomer.id id
      simp only [ih, add, added, List.map_cons, List.mem_cons]
      grind

theorem connectAdded (b : Board) (now : Duration) (newcomers : List Newcomer) :
    (b.connect now newcomers).2.2 = (spawnedIn (b.connect now newcomers).2.1).length := by
  induction newcomers generalizing b with
  | nil => rfl
  | cons newcomer rest ih =>
    rw [connect]
    split
    · exact ih b
    · simp only [ih, spawnedAppend, List.length_append]
      exact Nat.add_comm _ _

theorem connectCount (b : Board) (now : Duration) (newcomers : List Newcomer) :
    (b.connect now newcomers).2.2 = ((newcomers.map (·.id)).toFinset \ b.actors.keys.toFinset).card := by
  have lists : Lists b.actors.keys b := fun _ => Iff.rfl
  have joins := connectJoins lists now newcomers
  obtain ⟨distinct, apart⟩ := joins.orderly.once
  rw [connectAdded, ← List.toFinset_card_of_nodup distinct]
  congr 1
  ext id
  have on := joins.lists id
  rw [memConnect, List.mem_append] at on
  simp only [List.mem_toFinset, Finset.mem_sdiff]
  have := apart id
  grind

theorem connectNone {b : Board} (now : Duration) {batch : List Newcomer}
    (known : ∀ newcomer ∈ batch, newcomer.id ∈ b.actors.keys) : b.connect now batch = (b, [], 0) := by
  induction batch with
  | nil => rfl
  | cons newcomer rest ih =>
    rw [connectKnown b now (known newcomer List.mem_cons_self)]
    exact ih fun other mem => known other (List.mem_cons_of_mem _ mem)

theorem connectSkips (b : Board) (now : Duration) {before later : List Newcomer} {newcomer : Newcomer}
    (known : newcomer.id ∈ b.actors.keys ∨ newcomer.id ∈ before.map (·.id)) :
    b.connect now (before ++ newcomer :: later) = b.connect now (before ++ later) := by
  have there := (memConnect b now before newcomer.id).mpr known
  simp only [connectAppend, connectKnown _ now there]

theorem connectGetKept (b : Board) (now : Duration) (newcomers : List Newcomer) {id : String} {actor : Actor}
    (here : b.actors.get? id = some actor) : (b.connect now newcomers).1.actors.get? id = some actor := by
  rcases connectGet b now newcomers id with same | ⟨absent, _⟩
  · exact same.trans here
  · rw [here] at absent
    contradiction

theorem connectSilent (b : Board) (now : Duration) (newcomers : List Newcomer) {id : String}
    (here : id ∈ b.actors.keys) : ∀ call ∈ (b.connect now newcomers).2.1, ¬ call.names id := by
  have joined := connectInduct (P := fun after done => id ∈ after.actors.keys ∧ ∀ call ∈ done, ¬ call.names id)
    [] now newcomers ⟨here, fun _ mem => nomatch mem⟩ ?_
  · exact joined.2
  · rintro after done newcomer absent ⟨there, quiet⟩
    have other : newcomer.id ≠ id := fun same => by
      rw [← same, OrderedMap.memKeys, absent] at there
      contradiction
    refine ⟨(OrderedMap.memKeysInsert ..).mpr (.inr there), fun call mem => ?_⟩
    rcases List.mem_append.mp mem with mem | mem
    · exact quiet call mem
    · simp only [add, place, List.mem_cons, List.not_mem_nil, or_false] at mem
      rcases mem with rfl | rfl <;> simp [Call.names, Call.spawned?, Call.moved?, other]

structure Starts (b : Board) (now : Duration) (newcomer : Newcomer) (actor : Actor) : Prop where
  moves : actor.moves = newcomer.moves
  stepper : actor.stepper = .initial
  wakeAt : actor.wakeAt = some (now + b.config.firstStepDelay)

theorem connectConfig (b : Board) (now : Duration) (newcomers : List Newcomer) :
    (b.connect now newcomers).1.config = b.config :=
  connectInduct (P := fun after _ => after.config = b.config) [] now newcomers rfl fun _ _ _ _ same => same

theorem connectStarts (b : Board) (now : Duration) {before later : List Newcomer} {newcomer : Newcomer}
    (new : newcomer.id ∉ b.actors.keys) (first : newcomer.id ∉ before.map (·.id)) :
    ∃ actor, (b.connect now (before ++ newcomer :: later)).1.actors.get? newcomer.id = some actor ∧
      b.Starts now newcomer actor := by
  have absent : newcomer.id ∉ (b.connect now before).1.actors.keys := fun there =>
    ((memConnect b now before newcomer.id).mp there).elim new first
  simp only [connectAppend, connect, if_neg (mt (OrderedMap.memKeys _ _).mpr absent)]
  have config := connectConfig b now before
  have added : ∃ actor, ((b.connect now before).1.add newcomer now).1.actors.get? newcomer.id = some actor ∧
      (b.connect now before).1.Starts now newcomer actor :=
    ⟨_, OrderedMap.getInsertSelf _ _ _, rfl, rfl, rfl⟩
  obtain ⟨actor, here, moves, stepper, wakeAt⟩ := added
  rw [config] at wakeAt
  exact ⟨actor, connectGetKept _ now later here, moves, stepper, wakeAt⟩

/- What connecting a batch comes to. It adds as many actors as there are new ids in it, each with the moves of the first
newcomer of that id. Who is on the board keeps the whole record and is in no call; a newcomer whose id is there already,
or came before in the batch, may as well be left out, so that it takes no draw. At any later time the same ids connect
nobody. -/
structure ConnectsOnce (b : Board) (now : Duration) (newcomers : List Newcomer) : Prop where
  count : (b.connect now newcomers).2.2 = ((newcomers.map (·.id)).toFinset \ b.actors.keys.toFinset).card
  starts : ∀ before newcomer later, newcomers = before ++ newcomer :: later → newcomer.id ∉ b.actors.keys →
    newcomer.id ∉ before.map (·.id) →
      ∃ actor, (b.connect now newcomers).1.actors.get? newcomer.id = some actor ∧ b.Starts now newcomer actor
  keeps : ∀ id actor, b.actors.get? id = some actor → (b.connect now newcomers).1.actors.get? id = some actor
  silent : ∀ id ∈ b.actors.keys, ∀ call ∈ (b.connect now newcomers).2.1, ¬ call.names id
  skips : ∀ before newcomer later, newcomers = before ++ newcomer :: later →
    newcomer.id ∈ b.actors.keys ∨ newcomer.id ∈ before.map (·.id) →
      b.connect now newcomers = b.connect now (before ++ later)
  again : ∀ (ω : Type) [Link ω] (acts : List (Act × ω)) (later : Duration) (batch : List Newcomer),
    (∀ newcomer ∈ batch, newcomer.id ∈ b.actors.keys ∨ newcomer.id ∈ newcomers.map (·.id)) →
      let after := (b.connect now newcomers).1.after acts
      after.connect later batch = (after, [], 0)

theorem connectsOnce (b : Board) (now : Duration) (newcomers : List Newcomer) : b.ConnectsOnce now newcomers where
  count := connectCount b now newcomers
  starts := by
    rintro before newcomer later rfl new first
    exact connectStarts b now new first
  keeps := fun _ _ => connectGetKept b now newcomers
  silent := fun _ => connectSilent b now newcomers
  skips := by
    rintro before newcomer later rfl known
    exact connectSkips b now known
  again := by
    intro ω _ acts later batch known
    refine connectNone later fun newcomer mem => afterKeeps acts ?_
    exact (memConnect b now newcomers newcomer.id).mpr (known newcomer mem)

theorem actorsComeOnce (config : Config) (draws : Draws) (acts : List (Act × ω)) :
    let b := (ofConfig config draws).after acts
    let calls := ((ofConfig config draws).deeds acts).flatMap Deed.calls
    (spawnedIn calls).Nodup ∧ (∀ id, id ∈ spawnedIn calls ↔ id ∈ b.actors.keys) ∧
      (∀ before id sprite later, calls = before ++ .spawn id sprite :: later →
        ∃ placement rest, later = .place id placement :: rest) ∧
      (∀ before call later, calls = before ++ call :: later → ∀ id, call.moved? = some id → id ∈ spawnedIn before) ∧
      ∀ now newcomers, b.ConnectsOnce now newcomers := by
  intro b calls
  have nobody : Lists [] (ofConfig config draws) := fun _ => Iff.rfl
  have joins : Joins [] calls b := runJoins nobody acts
  refine ⟨joins.orderly.once.1, joins.lists, ?_, ?_, connectsOnce b⟩
  · intro before id sprite later split
    exact (split ▸ joins.orderly).placed
  · intro before call later split id moves
    have known := (split ▸ joins.orderly).moved moves
    rwa [List.nil_append] at known

end Board
end TurtleBoard
