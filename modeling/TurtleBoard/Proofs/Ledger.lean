import Mathlib.Data.List.Nodup
import TurtleBoard.Proofs.Log
import TurtleBoard.Proofs.Store

/-! The books of a store, whatever its clients ask of it and in whatever order. Artists and moves are numbered as they
come, without gaps. What drains handed out for an artist and what waits for it are together its greeting and the moves
that were added for it, in their order, and no move is handed out twice. -/
namespace TurtleBoard.Store

inductive Op where
  | create (name : String)
  | add (id description : String)
  | drain (id : String)
  deriving DecidableEq, Repr

def Op.name? : Op → Option String
  | .create name => some name
  | .add _ _ | .drain _ => none

/- A store with what is known of a run afterwards: the artists that their creators were answered, and under the id of
its artist each description that was added, each move that came into a queue and each that a drain handed out. -/
structure Ledger where
  store : Store := {}
  created : List Artist := []
  added : List (String × String) := []
  accepted : List (String × Move) := []
  delivered : List (String × Move) := []

namespace Ledger

def after (l : Ledger) : Op → Ledger
  | .create name =>
      let (artist, store) := l.store.create name
      { l with
        store
        created := l.created ++ [artist]
        accepted := l.accepted ++ (store.pending artist.id).map (artist.id, ·) }
  | .add id description =>
      match l.store.add id description with
      | some (move, store) =>
          { l with
            store
            added := l.added ++ [(id, description)]
            accepted := l.accepted ++ [(id, move)] }
      | none => l
  | .drain id =>
      let (moves, store) := l.store.drain id
      { l with store, delivered := l.delivered ++ moves.map (id, ·) }

def run (ops : List Op) : Ledger := ops.foldl after {}

structure Sound (l : Ledger) : Prop where
  listed : l.created = l.store.artists
  numbered : l.store.Numbered
  counted : l.accepted.map (·.2.id) = (List.range l.store.moveCount).map fun n => moveId (n + 1)
  waiting : ∀ queue ∈ l.store.queues, l.store.hasArtist queue.1 = true ∧ queue.2 ≠ []
  conserved : ∀ id, logOf id l.delivered ++ l.store.pending id = logOf id l.accepted
  unknown : ∀ id, l.store.hasArtist id = false → logOf id l.accepted = [] ∧ logOf id l.added = []
  described : ∀ artist ∈ l.store.artists,
    (logOf artist.id l.accepted).map (·.description) = ("say " ++ artist.name) :: logOf artist.id l.added

theorem strangerWaits {l : Ledger} (sound : l.Sound) {id : String} (stranger : l.store.hasArtist id = false) :
    l.store.pending id = [] := by
  have nothing := sound.conserved id
  rw [(sound.unknown id stranger).1] at nothing
  exact (List.append_eq_nil_iff.mp nothing).2

theorem afterCreate {l : Ledger} (sound : l.Sound) (name : String) :
    let id := artistId (l.store.artistCount + 1)
    l.after (.create name) =
      { l with
        store := (l.store.create name).2
        created := l.created ++ [⟨id, name⟩]
        accepted := l.accepted ++ [(id, ⟨moveId (l.store.moveCount + 1), "say " ++ name⟩)] } := by
  intro id
  have fresh : l.store.pending id = [] := strangerWaits sound (nextIsNew sound.numbered)
  have greeting := pendingCreate l.store name id
  rw [if_pos rfl, fresh, List.nil_append] at greeting
  have artist : (l.store.create name).1 = ⟨id, name⟩ := rfl
  simp only [after, artist, greeting, List.map_singleton]

theorem afterAdd {l : Ledger} {id : String} (registered : l.store.hasArtist id = true) (description : String) :
    l.after (.add id description) =
      { l with
        store := (l.store.push id description).2
        added := l.added ++ [(id, description)]
        accepted := l.accepted ++ [(id, (l.store.push id description).1)] } := by
  simp only [after, add, registered, if_true]

theorem afterRefused {l : Ledger} {id : String} (stranger : l.store.hasArtist id = false) (description : String) :
    l.after (.add id description) = l := by
  simp only [after, add, stranger, Bool.false_eq_true, if_false]

theorem conservedPush {l : Ledger} (sound : l.Sound) {store : Store} {id : String} {move : Move}
    (queued : ∀ other, store.pending other = l.store.pending other ++ if other = id then [move] else [])
    (other : String) :
    logOf other l.delivered ++ store.pending other = logOf other (l.accepted ++ [(id, move)]) := by
  rw [queued, ← List.append_assoc, sound.conserved, logAppend, logSingle]

theorem countedPush {l : Ledger} (sound : l.Sound) {id : String} {move : Move}
    (next : move.id = moveId (l.store.moveCount + 1)) :
    (l.accepted ++ [(id, move)]).map (·.2.id) =
      (List.range (l.store.moveCount + 1)).map fun n => moveId (n + 1) := by
  rw [List.map_append, sound.counted, List.range_succ, List.map_append, List.map_singleton, List.map_singleton, next]

theorem createSound {l : Ledger} (sound : l.Sound) (name : String) : (l.after (.create name)).Sound := by
  have fresh := nextIsNew sound.numbered
  have unlike {id : String} (registered : l.store.hasArtist id = true) :
      artistId (l.store.artistCount + 1) ≠ id := by
    rintro rfl
    rw [fresh] at registered
    contradiction
  have artists : (l.store.create name).2.artists =
      l.store.artists ++ [⟨artistId (l.store.artistCount + 1), name⟩] := rfl
  rw [afterCreate sound]
  constructor
  · simp only [artists, sound.listed]
  · exact createNumbered sound.numbered name
  · exact countedPush sound rfl
  · intro queue mem
    simp only [hasArtistCreate, Bool.or_eq_true, beq_iff_eq]
    rcases memEnqueue mem with ⟨own, filled⟩ | old
    · exact ⟨.inr own.symm, filled⟩
    · exact (sound.waiting queue old).imp_left .inl
  · exact conservedPush sound (pendingCreate l.store name)
  · intro id stranger
    simp only [hasArtistCreate, Bool.or_eq_false_iff, beq_eq_false_iff_ne] at stranger
    obtain ⟨accepted, added⟩ := sound.unknown id stranger.1
    rw [logAppend, accepted, logSingle, if_neg (Ne.symm stranger.2)]
    exact ⟨rfl, added⟩
  · intro artist mem
    simp only [artists, List.mem_append, List.mem_singleton] at mem
    rw [logAppend, logSingle]
    rcases mem with old | rfl
    · have other := unlike ((hasArtistIff l.store artist.id).mpr ⟨artist, old, rfl⟩)
      rw [if_neg (Ne.symm other), List.append_nil]
      exact sound.described artist old
    · obtain ⟨accepted, added⟩ := sound.unknown _ fresh
      rw [if_pos rfl, accepted, added]
      rfl

theorem addSound {l : Ledger} (sound : l.Sound) (id description : String) :
    (l.after (.add id description)).Sound := by
  cases registered : l.store.hasArtist id with
  | false =>
    rw [afterRefused registered]
    exact sound
  | true =>
    rw [afterAdd registered]
    constructor
    · exact sound.listed
    · exact sound.numbered
    · exact countedPush sound rfl
    · intro queue mem
      rcases memEnqueue mem with ⟨rfl, filled⟩ | old
      · exact ⟨registered, filled⟩
      · exact sound.waiting queue old
    · exact conservedPush sound (pendingPush l.store id description)
    · intro other stranger
      have unlike : other ≠ id := by
        rintro rfl
        exact absurd (registered.symm.trans stranger) (by decide)
      obtain ⟨accepted, added⟩ := sound.unknown other stranger
      simp only [logAppend, logSingle, if_neg unlike, accepted, added, List.append_nil, and_self]
    · intro artist mem
      simp only [logAppend, logSingle, List.map_append, sound.described artist mem]
      split <;> rfl

theorem drainSound {l : Ledger} (sound : l.Sound) (id : String) : (l.after (.drain id)).Sound where
  listed := sound.listed
  numbered := sound.numbered
  counted := sound.counted
  waiting := fun queue mem => sound.waiting queue (List.mem_filter.mp mem).1
  conserved := by
    intro other
    have entries : logOf other ((l.store.pending id).map (id, ·)) = if other = id then l.store.pending id else [] :=
      logUnder other _
    have drained := pendingDrain l.store id other
    have before := sound.conserved other
    change logOf other (l.delivered ++ (l.store.pending id).map (id, ·)) ++ (l.store.drain id).2.pending other = _
    rw [logAppend, entries, drained]
    by_cases own : other = id
    · rw [if_pos own, if_pos own, List.append_nil, ← own]
      exact before
    · rw [if_neg own, if_neg own, List.append_nil]
      exact before
  unknown := sound.unknown
  described := sound.described

theorem afterSound {l : Ledger} (sound : l.Sound) (op : Op) : (l.after op).Sound := by
  cases op with
  | create name => exact createSound sound name
  | add id description => exact addSound sound id description
  | drain id => exact drainSound sound id

theorem emptySound : Sound {} where
  listed := rfl
  numbered := rfl
  counted := rfl
  waiting := nofun
  conserved := fun _ => rfl
  unknown := fun _ _ => ⟨rfl, rfl⟩
  described := nofun

theorem runSound (ops : List Op) : (run ops).Sound := by
  have onwards (l : Ledger) (sound : l.Sound) : (ops.foldl after l).Sound := by
    induction ops generalizing l with
    | nil => exact sound
    | cons op ops ih => exact ih _ (afterSound sound op)
  exact onwards {} emptySound

theorem acceptedOnce {l : Ledger} (sound : l.Sound) : (l.accepted.map (·.2.id)).Nodup := by
  rw [sound.counted]
  exact List.nodup_range.map fun _ _ same => Nat.succ.inj (moveIdInjective same)

theorem deliveredWithin {l : Ledger} (sound : l.Sound) : l.delivered.Subperm l.accepted := by
  apply logWithin
  intro id
  rw [← sound.conserved id]
  exact List.sublist_append_left _ _

theorem deliveredOnce {l : Ledger} (sound : l.Sound) : (l.delivered.map (·.2.id)).Nodup := by
  obtain ⟨entries, same, within⟩ := deliveredWithin sound
  have once := (acceptedOnce sound).sublist (within.map _)
  exact (same.map _).nodup_iff.mp once

theorem movesOnce {l : Ledger} (sound : l.Sound) : (l.delivered.map (·.2)).Nodup := by
  apply List.Nodup.of_map Move.id
  rw [List.map_map]
  exact deliveredOnce sound

theorem waitsOrDelivered {l : Ledger} (sound : l.Sound) {id : String} {move : Move}
    (accepted : (id, move) ∈ l.accepted) :
    (l.store.pending id).count move + (l.delivered.map (·.2)).count move = 1 := by
  have once := acceptedOnce sound
  have own : ∀ entry ∈ l.delivered, entry.2 = move ↔ entry = (id, move) := by
    intro entry delivered
    refine ⟨fun same => ?_, fun same => congrArg (·.2) same⟩
    have within := (deliveredWithin sound).subset delivered
    exact List.inj_on_of_nodup_map once within accepted (congrArg Move.id same)
  have handed : (l.delivered.map (·.2)).count move = l.delivered.count (id, move) := by
    rw [List.count, List.countP_map, List.count]
    apply List.countP_congr
    intro entry delivered
    simpa only [Function.comp_apply, beq_iff_eq] using own entry delivered
  have all := congrArg (List.count move) (sound.conserved id)
  rw [List.count_append, countLog, countLog, List.count_eq_one_of_mem (List.Nodup.of_map _ once) accepted] at all
  omega

theorem drainNothing {l : Ledger} (sound : l.Sound) {id : String} (empty : l.store.pending id = []) :
    l.store.drain id = ([], l.store) := by
  have others : l.store.queues.filter (·.1 != id) = l.store.queues := by
    rw [List.filter_eq_self]
    intro queue mem
    apply bne_iff_ne.mpr
    rintro rfl
    have found : (l.store.queues.find? (·.1 == queue.1)).isSome = true :=
      List.find?_isSome.mpr ⟨queue, mem, beq_self_eq_true _⟩
    obtain ⟨own, found⟩ := Option.isSome_iff_exists.mp found
    simp only [pending, found, Option.map_some, Option.getD_some] at empty
    exact (sound.waiting own (List.mem_of_find?_eq_some found)).2 empty
  simp only [drain, others, empty]

theorem afterNames (l : Ledger) (op : Op) :
    (l.after op).store.artists.map (·.name) = l.store.artists.map (·.name) ++ op.name?.toList := by
  cases op with
  | create name => exact List.map_append
  | add id description =>
    have kept : (l.after (.add id description)).store.artists = l.store.artists := by
      cases registered : l.store.hasArtist id with
      | false => rw [afterRefused registered]
      | true => rw [afterAdd registered]; rfl
    rw [kept]
    exact (List.append_nil _).symm
  | drain id => exact (List.append_nil _).symm

theorem runNames (ops : List Op) : (run ops).store.artists.map (·.name) = ops.filterMap Op.name? := by
  have onwards (l : Ledger) : (ops.foldl after l).store.artists.map (·.name) =
      l.store.artists.map (·.name) ++ ops.filterMap Op.name? := by
    induction ops generalizing l with
    | nil => exact (List.append_nil _).symm
    | cons op ops ih =>
      rw [List.foldl_cons, ih, afterNames, List.append_assoc]
      cases named : op.name? <;> simp [named]
  exact onwards {}

structure Balances (l : Ledger) (ops : List Op) : Prop where
  answered : l.created = l.store.artists
  artistNames : l.store.artists.map (·.name) = ops.filterMap Op.name?
  artistIds : l.store.artists.map (·.id) =
    (List.range (ops.filterMap Op.name?).length).map fun n => artistId (n + 1)
  artistsOnce : (l.store.artists.map (·.id)).Nodup
  moveIds : l.accepted.map (·.2.id) = (List.range l.accepted.length).map fun n => moveId (n + 1)
  movesOnce : (l.accepted.map (·.2.id)).Nodup
  registered : ∀ queue ∈ l.store.queues, l.store.hasArtist queue.1 = true
  conserved : ∀ artist ∈ l.store.artists,
    logOf artist.id l.delivered ++ l.store.pending artist.id = logOf artist.id l.accepted ∧
      (logOf artist.id l.accepted).map (·.description) = ("say " ++ artist.name) :: logOf artist.id l.added
  fromOwn : ∀ entry ∈ l.delivered, entry ∈ l.accepted
  deliveredOnce : (l.delivered.map (·.2.id)).Nodup
  refused : ∀ id, l.store.hasArtist id = false →
    (∀ description, l.store.add id description = none ∧ l.after (.add id description) = l) ∧
      l.store.drain id = ([], l.store)
  emptied : ∀ id, l.store.pending id = [] → l.store.drain id = ([], l.store)

theorem runBalances (ops : List Op) : (run ops).Balances ops := by
  have sound := runSound ops
  have names := runNames ops
  have artistCount : (ops.filterMap Op.name?).length = (run ops).store.artistCount := by
    rw [← names, List.length_map, ← List.length_map (fun artist : Artist => artist.id), sound.numbered,
      List.length_map, List.length_range]
  have moveCount : (run ops).accepted.length = (run ops).store.moveCount := by
    rw [← List.length_map (fun entry : String × Move => entry.2.id), sound.counted, List.length_map,
      List.length_range]
  constructor
  · exact sound.listed
  · exact names
  · rw [artistCount]
    exact sound.numbered
  · rw [sound.numbered]
    exact List.nodup_range.map fun _ _ same => Nat.succ.inj (artistIdInjective same)
  · rw [moveCount]
    exact sound.counted
  · exact acceptedOnce sound
  · exact fun queue mem => (sound.waiting queue mem).1
  · exact fun artist mem => ⟨sound.conserved artist.id, sound.described artist mem⟩
  · exact fun entry mem => (deliveredWithin sound).subset mem
  · exact deliveredOnce sound
  · intro id stranger
    have drained := drainNothing sound (strangerWaits sound stranger)
    refine ⟨fun description => ⟨?_, afterRefused stranger description⟩, drained⟩
    simp only [add, stranger, Bool.false_eq_true, if_false]
  · exact fun id empty => drainNothing sound empty

end Ledger
end TurtleBoard.Store
