import TurtleBoard.Proofs.Ledger
import TurtleBoard.Proofs.Requests

/-! What becomes of the moves that a service queues, whatever is asked of it. Each of them waits for its artist, is
listed in one answer, or was taken for an answer to HEAD, whose body nobody gets. As long as nobody asks for the head of
a queue, no move is lost. -/
namespace TurtleBoard

/- The requests that a service was sent, as they are seen from outside: the answers to them, the moves that came into a
queue, each with its artist, and those that were taken from one for an answer without a body. -/
structure Traffic where
  store : Store := {}
  sent : List Response := []
  queued : List (String × Move) := []
  dropped : List Move := []

namespace Traffic

/- A request that is answered with 200 can queue a new move, or what waits for a new artist. -/
def queuedBy (r : Request) (response : Response) (store : Store) : List (String × Move) :=
  if r.method = "POST" ∧ response.status = 200 then
    match r.queue? with
    | some id => (response.record? Move.ofJson?).toList.map (id, ·)
    | none =>
        match response.record? Artist.ofJson? with
        | some artist => (store.pending artist.id).map (artist.id, ·)
        | none => []
  else []

def droppedBy (r : Request) (response : Response) (before : Store) : List Move :=
  if r.method = "HEAD" ∧ response.status = 200 then (r.queue?.map before.pending).getD [] else []

def note (t : Traffic) (r : Request) (response : Response) (store : Store) : Traffic where
  store
  sent := t.sent ++ [response]
  queued := t.queued ++ queuedBy r response store
  dropped := t.dropped ++ droppedBy r response t.store

def after (t : Traffic) (r : Request) : Traffic :=
  let (response, store) := Service.answer r t.store
  t.note r response store

def run (rs : List Request) : Traffic := rs.foldl after {}

structure Tallies (t : Traffic) (l : Store.Ledger) : Prop where
  sound : l.Sound
  store : t.store = l.store
  queued : t.queued = l.accepted
  handed : (t.sent.flatMap Response.moves ++ t.dropped).Perm (l.delivered.map (·.2))

variable {t : Traffic} {l : Store.Ledger} {r : Request}

theorem noteTallies (tallies : t.Tallies l) {op : Store.Op} {response : Response} {store : Store}
    (same : store = (l.after op).store) (queued : (l.after op).accepted = l.accepted ++ queuedBy r response store)
    (handed : (l.after op).delivered.map (·.2) =
      l.delivered.map (·.2) ++ (response.moves ++ droppedBy r response t.store)) :
    (t.note r response store).Tallies (l.after op) where
  sound := Store.Ledger.afterSound tallies.sound op
  store := same
  queued := by rw [queued, ← tallies.queued]; rfl
  handed := by
    simp only [note, List.flatMap_append, List.flatMap_singleton]
    rw [handed]
    have apart : (t.sent.flatMap Response.moves ++ response.moves ++ (t.dropped ++ droppedBy r response t.store)).Perm
        (t.sent.flatMap Response.moves ++ t.dropped ++ (response.moves ++ droppedBy r response t.store)) := by
      simp only [List.append_assoc]
      exact (List.perm_append_comm_assoc _ _ _).append_left _
    exact apart.trans (tallies.handed.append_right _)

theorem unqueued {response : Response} {store : Store} (method : r.method ≠ "POST") :
    queuedBy r response store = [] := if_neg fun both => method both.1

theorem undropped {response : Response} {before : Store} (method : r.method ≠ "HEAD") :
    droppedBy r response before = [] := if_neg fun both => method both.1

theorem noteQuiet (tallies : t.Tallies l) {response : Response} (silent : response.moves = [])
    (noneQueued : queuedBy r response t.store = []) (noneDropped : droppedBy r response t.store = []) :
    (t.note r response t.store).Tallies l where
  sound := tallies.sound
  store := tallies.store
  queued := by simp only [note, noneQueued, List.append_nil, tallies.queued]
  handed := by
    simp only [note, noneDropped, List.flatMap_append, List.flatMap_singleton, silent, List.append_nil]
    exact tallies.handed

theorem queuedCreate (name : String) (s : Store) (method : r.method = "POST") (queue : r.queue? = none) :
    queuedBy r (.json (s.create name).1.toJson) (s.create name).2 =
      ((s.create name).2.pending (s.create name).1.id).map ((s.create name).1.id, ·) := by
  have read := Response.recordJson Artist.ofJson? (s.create name).1.reads
  rw [Artist.ofToJson] at read
  rw [queuedBy, if_pos ⟨method, rfl⟩, queue, read]

theorem queuedPush {id description : String} {s : Store} (method : r.method = "POST") (queue : r.queue? = some id) :
    queuedBy r (.json (s.push id description).1.toJson) (s.push id description).2 =
      [(id, (s.push id description).1)] := by
  have read := Response.recordJson Move.ofJson? (s.push id description).1.reads
  rw [Move.ofToJson] at read
  rw [queuedBy, if_pos ⟨method, rfl⟩, queue, read]
  rfl

theorem handedDrain (l : Store.Ledger) (id : String) :
    (l.after (.drain id)).delivered.map (·.2) = l.delivered.map (·.2) ++ l.store.pending id := by
  have plain : ((l.store.pending id).map (id, ·)).map (·.2) = l.store.pending id := by
    rw [List.map_map]
    exact List.map_id _
  rw [← plain, ← List.map_append]
  rfl

theorem afterTallies (tallies : t.Tallies l) (r : Request) : ∃ books : Store.Ledger, (t.after r).Tallies books := by
  have outcome := Service.answerOutcome r t.store
  rw [after]
  generalize Service.answer r t.store = answered at outcome
  obtain ⟨store, sent, queued, dropped⟩ := t
  obtain rfl : store = l.store := tallies.store
  have unlike {verb other : String} (method : r.method = verb) (different : verb ≠ other) : r.method ≠ other := by
    rw [method]
    exact different
  cases outcome with
  | refused status silent =>
    exact ⟨l, noteQuiet tallies silent (if_neg fun both => status both.2) (if_neg fun both => status both.2)⟩
  | roster method queue status silent =>
    refine ⟨l, noteQuiet tallies silent (unqueued method) ?_⟩
    simp only [droppedBy, queue, Option.map_none, Option.getD_none, ite_self]
  | @created input method queue body =>
    refine ⟨l.after (.create input.name), noteTallies tallies rfl ?_ ?_⟩
    · rw [queuedCreate _ _ method queue]
      rfl
    · rw [Response.movesArtist, undropped (unlike method (by decide)), List.append_nil, List.append_nil]
      rfl
  | @taken id method queue =>
    refine ⟨l.after (.drain id), noteTallies tallies rfl ?_ ?_⟩
    · rw [unqueued (unlike method (by decide)), List.append_nil]
      rfl
    · rw [Response.movesList, undropped (unlike method (by decide)), List.append_nil, handedDrain]
  | @dropped id method queue =>
    refine ⟨l.after (.drain id), noteTallies tallies rfl ?_ ?_⟩
    · rw [unqueued (unlike method (by decide)), List.append_nil]
      rfl
    · have lost : droppedBy r (.empty 200) l.store = l.store.pending id := by
        rw [droppedBy, if_pos ⟨method, rfl⟩, queue]
        rfl
      rw [Response.movesEmpty, List.nil_append, handedDrain, lost]
  | @added id input method queue registered body =>
    have added := Store.Ledger.afterAdd registered input.description
    refine ⟨l.after (.add id input.description), noteTallies tallies ?_ ?_ ?_⟩
    · rw [added]
    · rw [added, queuedPush method queue]
    · rw [added, Response.movesMove, undropped (unlike method (by decide)), List.append_nil, List.append_nil]

theorem runTallies (rs : List Request) : ∃ books : Store.Ledger, (run rs).Tallies books := by
  have onwards (t : Traffic) (l : Store.Ledger) (tallies : t.Tallies l) :
      ∃ books : Store.Ledger, (rs.foldl after t).Tallies books := by
    induction rs generalizing t l with
    | nil => exact ⟨l, tallies⟩
    | cons r rs ih =>
      obtain ⟨books, next⟩ := afterTallies tallies r
      exact ih _ books next
  exact onwards {} {} ⟨Store.Ledger.emptySound, rfl, rfl, .nil⟩

theorem answersWith {sent : List Response} (once : (sent.flatMap Response.moves).Nodup) (move : Move) :
    sent.countP (move ∈ ·.moves) = (sent.flatMap Response.moves).count move := by
  induction sent with
  | nil => rfl
  | cons response sent ih =>
    rw [List.flatMap_cons] at once ⊢
    obtain ⟨here, later, _⟩ := List.nodup_append.mp once
    rw [List.countP_cons, ih later, List.count_append, Nat.add_comm]
    by_cases listed : move ∈ response.moves
    · rw [List.count_eq_one_of_mem here listed]
      simp only [listed, decide_true, if_true]
    · rw [List.count_eq_zero_of_not_mem listed]
      simp only [listed, decide_false, Bool.false_eq_true, if_false]

theorem afterDropped (t : Traffic) (asked : r.method = "HEAD" → r.queue? = none) :
    (t.after r).dropped = t.dropped := by
  have nothing : droppedBy r (Service.answer r t.store).1 t.store = [] := by
    by_cases method : r.method = "HEAD"
    · simp only [droppedBy, asked method, Option.map_none, Option.getD_none, ite_self]
    · exact undropped method
  have noted : (t.after r).dropped = t.dropped ++ droppedBy r (Service.answer r t.store).1 t.store := rfl
  rw [noted, nothing, List.append_nil]

theorem runDropped (rs : List Request) (asked : ∀ r ∈ rs, r.method = "HEAD" → r.queue? = none) :
    (run rs).dropped = [] := by
  have onwards (t : Traffic) : (rs.foldl after t).dropped = t.dropped := by
    induction rs generalizing t with
    | nil => rfl
    | cons r rs ih =>
      have here := afterDropped t (asked r List.mem_cons_self)
      rw [List.foldl_cons, ih (fun r mem => asked r (List.mem_cons_of_mem _ mem)), here]
  exact onwards {}

theorem queuedAccountedFor (rs : List Request) :
    (∀ entry ∈ (run rs).queued,
      ((run rs).store.pending entry.1).count entry.2 + (run rs).sent.countP (entry.2 ∈ ·.moves) +
        (run rs).dropped.count entry.2 = 1) ∧
    ((∀ r ∈ rs, r.method = "HEAD" → r.queue? = none) → ∀ entry ∈ (run rs).queued,
      ((run rs).store.pending entry.1).count entry.2 + (run rs).sent.countP (entry.2 ∈ ·.moves) = 1) := by
  obtain ⟨l, tallies⟩ := runTallies rs
  have inAll (entry : String × Move) (queued : entry ∈ (run rs).queued) :
      ((run rs).store.pending entry.1).count entry.2 + (run rs).sent.countP (entry.2 ∈ ·.moves) +
        (run rs).dropped.count entry.2 = 1 := by
    rw [tallies.queued] at queued
    have once := tallies.handed.nodup_iff.mpr (Store.Ledger.movesOnce tallies.sound)
    have booked := Store.Ledger.waitsOrDelivered tallies.sound queued
    rw [← tallies.handed.count_eq, List.count_append] at booked
    rw [tallies.store, answersWith (List.nodup_append.mp once).1]
    omega
  refine ⟨inAll, fun asked entry queued => ?_⟩
  have all := inAll entry queued
  rw [runDropped rs asked] at all
  exact all

def entrance (name : String) : Request := ⟨"POST", "localhost", "/api/artists", (NewArtist.toJson ⟨name⟩).toBytes⟩

theorem runEntrance {name : String} (fits : (entrance name).body.size ≤ Service.bodyLimit) :
    run [entrance name] =
      { store := (Store.create {} name).2
        sent := [.json (Artist.mk "artist1" name).toJson]
        queued := [("artist1", ⟨"move1", "say " ++ name⟩)] } := by
  have route : Route.ofTarget? "/api/artists" = some .artists := by decide
  have queue : (entrance name).queue? = none := by simp only [Request.queue?, entrance, route]
  have body := Json.ofToBytes (NewArtist.reads ⟨name⟩)
  have answered : Service.answer (entrance name) {} =
      (.json (Store.create {} name).1.toJson, (Store.create {} name).2) := by
    rw [entrance] at fits
    simp only [Service.answer, entrance, route, Service.post, Service.createArtist, if_neg (Nat.not_lt.mpr fits), body,
      Option.bind_some, NewArtist.ofToJson]
  have artist : (Store.create {} name).1 = ⟨"artist1", name⟩ := rfl
  have kept (response : Response) : droppedBy (entrance name) response {} = [] :=
    undropped (show "POST" ≠ "HEAD" by decide)
  have greeting : (Store.create {} name).2.pending "artist1" = [⟨"move1", "say " ++ name⟩] := by
    rw [Store.pendingCreate, if_pos (show "artist1" = Store.artistId 1 by decide)]
    rfl
  have queued := queuedCreate name {} rfl queue
  rw [artist, greeting, List.map_singleton] at queued
  rw [artist] at answered
  simp only [run, List.foldl_cons, List.foldl_nil, after, answered, note, queued, kept, List.nil_append]

theorem entranceFits : (entrance "Ann").body.size ≤ Service.bodyLimit := by decide

theorem queuedAccountedForAfterVisit :
    let sends (raw : String) : Request :=
      ⟨"POST", "localhost", "/api/artists/artist1/moves", (NewMove.toJson ⟨raw⟩).toBytes⟩
    let rs := [entrance "Ann", sends "forward 2", ⟨"GET", "localhost", "/api/artists/artist1/moves", .empty⟩,
      sends "left 90"]
    (∀ r ∈ rs, r.method = "HEAD" → r.queue? = none) ∧
      (run rs).queued = [("artist1", ⟨"move1", "say Ann"⟩), ("artist1", ⟨"move2", "forward 2"⟩),
        ("artist1", ⟨"move3", "left 90"⟩)] ∧
      (run rs).sent.flatMap Response.moves = [⟨"move1", "say Ann"⟩, ⟨"move2", "forward 2"⟩] ∧
      (run rs).store.pending "artist1" = [⟨"move3", "left 90"⟩] ∧
      ∀ entry ∈ (run rs).queued,
        ((run rs).store.pending entry.1).count entry.2 + (run rs).sent.countP (entry.2 ∈ ·.moves) = 1 := by
  intro sends rs
  have noHead : ∀ r ∈ rs, r.method = "HEAD" → r.queue? = none := by decide +kernel
  exact ⟨noHead, by decide +kernel, by decide +kernel, by decide +kernel, (queuedAccountedFor rs).2 noHead⟩

theorem headLosesGreeting :
    let t := run [entrance "Ann", ⟨"HEAD", "localhost", "/api/artists/artist1/moves", .empty⟩]
    ("artist1", ⟨"move1", "say Ann"⟩) ∈ t.queued ∧ t.store.pending "artist1" = [] ∧
      ∀ response ∈ t.sent, response.moves = [] := by
  intro t
  have first : t = (run [entrance "Ann"]).after ⟨"HEAD", "localhost", "/api/artists/artist1/moves", .empty⟩ := rfl
  have route : Route.ofTarget? "/api/artists/artist1/moves" = some (.moves "artist1".toList) := by decide
  have decoded : Percent.decode? "artist1".toList = some "artist1" := Store.decodeArtistId 1
  have answered (s : Store) : Service.answer ⟨"HEAD", "localhost", "/api/artists/artist1/moves", .empty⟩ s =
      (.empty 200, (s.drain "artist1").2) := by
    simp only [Service.answer, route, Service.get, Service.drainMoves, decoded]
    rfl
  rw [first, runEntrance entranceFits]
  simp only [after, answered, note]
  refine ⟨List.mem_append_left _ (List.mem_singleton_self _), ?_, ?_⟩
  · rw [Store.pendingDrain, if_pos rfl]
  · intro response mem
    rcases List.mem_append.mp mem with mem | mem
    · rw [List.mem_singleton.mp mem]
      exact Response.movesArtist _
    · rw [List.mem_singleton.mp mem]
      exact Response.movesEmpty 200

end Traffic
end TurtleBoard
