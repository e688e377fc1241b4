import TurtleBoard.Moves
import TurtleBoard.Proofs.Addresses
import TurtleBoard.Proofs.Taking

/-! What each call of a client comes to when its requests reach the service: the operation of the store itself, and its
result. When nobody answers or the service refuses, a call fails and nothing happens. From this, what the pulls of an
artist's moves hand out: nothing but what was buffered and queued, in that order, and nothing of it twice. -/
namespace TurtleBoard

namespace Client
variable {c : Client} {host : String}

theorem requestUp {url target : String} (parsed : Url.parse? url = some ⟨host, target⟩) (method : String)
    (body : ByteArray) (s : Store) :
    request method url body (Network.mk host (some s)) =
      ((some (Service.answer ⟨method, host, target, body⟩ s).1).filter
          fun response => response.status < 400 || 600 ≤ response.status,
        Network.mk host (some (Service.answer ⟨method, host, target, body⟩ s).2)) := by
  simp only [request, parsed, Link.send, Network.send, if_true]

theorem requestDown (method url : String) (body : ByteArray) :
    request method url body (Network.mk host none) = (none, Network.mk host none) := by
  unfold request
  cases Url.parse? url with
  | none => rfl
  | some _ => rfl

theorem getUp {β : Type} {url target what : String} {read : Json → Option β} {write : β → Json}
    (parsed : Url.parse? url = some ⟨host, target⟩) {s after : Store} {records : List β}
    (answered : Service.answer ⟨"GET", host, target, .empty⟩ s = (.json (.array (records.map write)), after))
    (reads : ∀ x, Json.Reads (write x)) (back : ∀ x, read (write x) = some x) :
    get url what read (Network.mk host (some s)) = (.ok records, Network.mk host (some after)) := by
  have decoded := Json.ofToBytes (Json.readsRecords reads records)
  simp only [get, requestUp parsed, answered, Response.json, Option.filter_some]
  simp only [Nat.reduceLT, decide_true, Bool.true_or, if_true, decoded, Option.bind_some, Json.listOfArray back]

theorem postUp {β : Type} {url target what : String} {body : Json} {read : Json → Option β} {write : β → Json}
    (parsed : Url.parse? url = some ⟨host, target⟩) {s after : Store} {record : β}
    (answered : Service.answer ⟨"POST", host, target, body.toBytes⟩ s = (.json (write record), after))
    (reads : Json.Reads (write record)) (back : read (write record) = some record) :
    post url what body read (Network.mk host (some s)) = (.ok record, Network.mk host (some after)) := by
  have decoded := Json.ofToBytes reads
  simp only [post, requestUp parsed, answered, Response.json, Option.filter_some]
  simp only [Nat.reduceLT, decide_true, Bool.true_or, if_true, decoded, Option.bind_some, back]

theorem artistsUp (addresses : c.Addresses host) (s : Store) :
    c.artists (Network.mk host (some s)) = (.ok s.artists, Network.mk host (some s)) := by
  obtain ⟨target, parsed, route⟩ := addresses.roster
  apply getUp parsed _ Artist.reads Artist.ofToJson
  simp only [Service.answer, route, Service.get, Service.listArtists]

structure Queues (c : Client) (host id target : String) : Prop where
  parsed : Url.parse? (c.movesUrl id) = some ⟨host, target⟩
  routed : ∃ coded, Route.ofTarget? target = some (.moves coded) ∧ Percent.decode? coded = some id

theorem Addresses.queues (addresses : c.Addresses host) (n : Nat) :
    ∃ target, c.Queues host (Store.artistId n) target := by
  obtain ⟨target, parsed, route⟩ := addresses.queue n
  exact ⟨target, parsed, _, route, Store.decodeArtistId n⟩

theorem drainNamed {id artist target : String} {coded : List Char}
    (parsed : Url.parse? (c.movesUrl id) = some ⟨host, target⟩) (route : Route.ofTarget? target = some (.moves coded))
    (decoded : Percent.decode? coded = some artist) (s : Store) :
    c.drainMoves id (Network.mk host (some s)) =
      (.ok (s.pending artist), Network.mk host (some (s.drain artist).2)) := by
  apply getUp parsed _ Move.reads Move.ofToJson
  simp only [Service.answer, route, Service.get, Service.drainMoves, decoded]
  rfl

theorem drainQueue {id target : String} (queues : c.Queues host id target) (s : Store) :
    c.drainMoves id (Network.mk host (some s)) = (.ok (s.pending id), Network.mk host (some (s.drain id).2)) := by
  obtain ⟨parsed, coded, route, decoded⟩ := queues
  exact drainNamed parsed route decoded s

theorem drainUp (addresses : c.Addresses host) (n : Nat) (s : Store) :
    c.drainMoves (Store.artistId n) (Network.mk host (some s)) =
      (.ok (s.pending (Store.artistId n)), Network.mk host (some (s.drain (Store.artistId n)).2)) := by
  obtain ⟨target, queues⟩ := addresses.queues n
  exact drainQueue queues s

theorem postRefused {β : Type} {url target what : String} {body : Json} {read : Json → Option β}
    (parsed : Url.parse? url = some ⟨host, target⟩) {s : Store} {response : Response}
    (answered : Service.answer ⟨"POST", host, target, body.toBytes⟩ s = (response, s))
    (refused : 400 ≤ response.status ∧ response.status < 600) :
    post url what body read (Network.mk host (some s)) = (.error (.post url), Network.mk host (some s)) := by
  have error : (decide (response.status < 400) || decide (600 ≤ response.status)) = false := by
    simp only [Bool.or_eq_false_iff, decide_eq_false_iff_not]
    omega
  simp only [post, requestUp parsed, answered, Option.filter_some, error, Bool.false_eq_true, if_false]

theorem createUp (addresses : c.Addresses host) {name : String}
    (fits : (NewArtist.toJson ⟨name⟩).toBytes.size ≤ Service.bodyLimit) (s : Store) :
    c.createArtist name (Network.mk host (some s)) =
      (.ok (s.create name).1, Network.mk host (some (s.create name).2)) := by
  obtain ⟨target, parsed, route⟩ := addresses.roster
  apply postUp parsed _ (Artist.reads _) (Artist.ofToJson _)
  have body := Json.ofToBytes (NewArtist.reads ⟨name⟩)
  simp only [Service.answer, route, Service.post, Service.createArtist, if_neg (Nat.not_lt.mpr fits), body,
    Option.bind_some, NewArtist.ofToJson]

theorem createTooLong (addresses : c.Addresses host) {name : String}
    (tooLong : Service.bodyLimit < (NewArtist.toJson ⟨name⟩).toBytes.size) (s : Store) :
    c.createArtist name (Network.mk host (some s)) =
      (.error (.post c.artistsUrl), Network.mk host (some s)) := by
  obtain ⟨target, parsed, route⟩ := addresses.roster
  have answered : Service.answer ⟨"POST", host, target, (NewArtist.toJson ⟨name⟩).toBytes⟩ s = (.tooLong, s) := by
    simp only [Service.answer, route, Service.post, Service.createArtist, if_pos tooLong]
  exact postRefused parsed answered (by decide)

theorem addNamed {id artist target description : String} {coded : List Char}
    (parsed : Url.parse? (c.movesUrl id) = some ⟨host, target⟩) (route : Route.ofTarget? target = some (.moves coded))
    (decoded : Percent.decode? coded = some artist)
    (fits : (NewMove.toJson ⟨description⟩).toBytes.size ≤ Service.bodyLimit) {s : Store}
    (registered : s.hasArtist artist = true) :
    c.addMove id description (Network.mk host (some s)) =
      (.ok (s.push artist description).1, Network.mk host (some (s.push artist description).2)) := by
  apply postUp parsed _ (Move.reads _) (Move.ofToJson _)
  have body := Json.ofToBytes (NewMove.reads ⟨description⟩)
  simp only [Service.answer, route, Service.post, Service.createMove, decoded, if_neg (Nat.not_lt.mpr fits),
    registered, if_true, body, Option.bind_some, NewMove.ofToJson, Store.add]

theorem addNamedRefused {id artist target description : String} {coded : List Char}
    (parsed : Url.parse? (c.movesUrl id) = some ⟨host, target⟩) (route : Route.ofTarget? target = some (.moves coded))
    (decoded : Percent.decode? coded = some artist) {s : Store}
    (refused : Service.bodyLimit < (NewMove.toJson ⟨description⟩).toBytes.size ∨ s.hasArtist artist = false) :
    c.addMove id description (Network.mk host (some s)) =
      (.error (.post (c.movesUrl id)), Network.mk host (some s)) := by
  by_cases tooLong : Service.bodyLimit < (NewMove.toJson ⟨description⟩).toBytes.size
  · have answered : Service.answer ⟨"POST", host, target, (NewMove.toJson ⟨description⟩).toBytes⟩ s =
        (.tooLong, s) := by
      simp only [Service.answer, route, Service.post, Service.createMove, decoded, if_pos tooLong]
    exact postRefused parsed answered (by decide)
  · have unknown := refused.resolve_left tooLong
    have answered : Service.answer ⟨"POST", host, target, (NewMove.toJson ⟨description⟩).toBytes⟩ s =
        (.unknownArtist artist, s) := by
      simp only [Service.answer, route, Service.post, Service.createMove, decoded, if_neg tooLong, unknown,
        Bool.false_eq_true, if_false]
    exact postRefused parsed answered (show 400 ≤ 404 ∧ 404 < 600 by decide)

theorem addUp (addresses : c.Addresses host) (n : Nat) {description : String}
    (fits : (NewMove.toJson ⟨description⟩).toBytes.size ≤ Service.bodyLimit) {s : Store}
    (registered : s.hasArtist (Store.artistId n) = true) :
    c.addMove (Store.artistId n) description (Network.mk host (some s)) =
      (.ok (s.push (Store.artistId n) description).1,
        Network.mk host (some (s.push (Store.artistId n) description).2)) := by
  obtain ⟨target, parsed, route⟩ := addresses.queue n
  exact addNamed parsed route (Store.decodeArtistId n) fits registered

theorem addRefused (addresses : c.Addresses host) (n : Nat) (description : String) {s : Store}
    (refused : Service.bodyLimit < (NewMove.toJson ⟨description⟩).toBytes.size ∨
      s.hasArtist (Store.artistId n) = false) :
    c.addMove (Store.artistId n) description (Network.mk host (some s)) =
      (.error (.post (c.movesUrl (Store.artistId n))), Network.mk host (some s)) := by
  obtain ⟨target, parsed, route⟩ := addresses.queue n
  exact addNamedRefused parsed route (Store.decodeArtistId n) refused

theorem getDown {β : Type} (url what : String) (read : Json → Option β) :
    get url what read (Network.mk host none) = (.error (.get url), Network.mk host none) := by
  rw [get, requestDown]

theorem postDown {β : Type} (url what : String) (body : Json) (read : Json → Option β) :
    post url what body read (Network.mk host none) = (.error (.post url), Network.mk host none) := by
  rw [post, requestDown]

end Client

def Network.serving (host : String) (reachable : Bool) (s : Store) : Network :=
  ⟨host, if reachable then some s else none⟩

def Store.actions (s : Store) (id : String) : List (Action Float) :=
  (s.pending id).filterMap fun m => Line.action? m.description

structure Store.HandsOut (id : String) (s after : Store) : Prop where
  artists : after.artists = s.artists
  artistCount : after.artistCount = s.artistCount
  others : ∀ other, other ≠ id → after.pending other = s.pending other

theorem Store.HandsOut.refl (id : String) (s : Store) : s.HandsOut id s := ⟨rfl, rfl, fun _ _ => rfl⟩

theorem Store.HandsOut.trans {id : String} {s middle after : Store} (first : s.HandsOut id middle)
    (second : middle.HandsOut id after) : s.HandsOut id after where
  artists := second.artists.trans first.artists
  artistCount := second.artistCount.trans first.artistCount
  others := fun other unlike => (second.others other unlike).trans (first.others other unlike)

theorem Store.drainHandsOut (id : String) (s : Store) : s.HandsOut id (s.drain id).2 where
  artists := rfl
  artistCount := rfl
  others := fun other unlike => by rw [pendingDrain, if_neg unlike]

/- What pulls hand out of what is buffered and queued for an artist, and what they leave of it. Without the service the
store stays as it was. -/
structure Delivery (id : String) (reachable : Bool) (buffer : List (Action Float)) (s : Store)
    (actions left : List (Action Float)) (after : Store) : Prop where
  out : s.HandsOut id after
  silent : reachable = false → after = s
  kept : actions ++ left ++ after.actions id = buffer ++ s.actions id

theorem Delivery.refl (id : String) (reachable : Bool) (buffer : List (Action Float)) (s : Store) :
    Delivery id reachable buffer s [] buffer s := ⟨.refl id s, fun _ => rfl, rfl⟩

theorem Delivery.trans {id : String} {reachable : Bool} {buffer actions left more rest : List (Action Float)}
    {s middle after : Store} (first : Delivery id reachable buffer s actions left middle)
    (second : Delivery id reachable left middle more rest after) :
    Delivery id reachable buffer s (actions ++ more) rest after where
  out := first.out.trans second.out
  silent := fun silent => (second.silent silent).trans (first.silent silent)
  kept := by
    calc actions ++ more ++ rest ++ after.actions id
      _ = actions ++ (more ++ rest ++ after.actions id) := by simp only [List.append_assoc]
      _ = actions ++ left ++ middle.actions id := by rw [second.kept, List.append_assoc]
      _ = buffer ++ s.actions id := first.kept

namespace RemoteMoves
variable {c : Client} {host : String}

theorem refillQueue {id target : String} (queues : c.Queues host id target) (pending : List (Action Float))
    (s : Store) :
    (RemoteMoves.mk c id pending).refill (Network.serving host true s) =
      (⟨c, id, pending ++ s.actions id⟩, Network.serving host true (s.drain id).2) := by
  simp only [refill, Network.serving, if_true, Client.drainQueue queues]
  rfl

theorem refillUp (addresses : c.Addresses host) (n : Nat) (pending : List (Action Float)) (s : Store) :
    (RemoteMoves.mk c (Store.artistId n) pending).refill (Network.serving host true s) =
      (⟨c, Store.artistId n, pending ++ s.actions (Store.artistId n)⟩,
        Network.serving host true (s.drain (Store.artistId n)).2) := by
  obtain ⟨target, queues⟩ := addresses.queues n
  exact refillQueue queues pending s

theorem refillDown (r : RemoteMoves) (s : Store) :
    r.refill (Network.serving host false s) = (r, Network.serving host false s) := by
  simp only [refill, Network.serving, Bool.false_eq_true, if_false, Client.drainMoves, Client.getDown]

theorem nextRemote (addresses : c.Addresses host) (n : Nat) (buffer : List (Action Float)) (reachable : Bool)
    (s : Store) :
    ∃ action left after,
      (RemoteMoves.mk c (Store.artistId n) buffer).next (Network.serving host reachable s) =
        (action, ⟨c, Store.artistId n, left⟩, Network.serving host reachable after) ∧
      Delivery (Store.artistId n) reachable buffer s action.toList left after := by
  cases buffer with
  | cons first buffer => exact ⟨some first, buffer, s, rfl, .refl _ s, fun _ => rfl, rfl⟩
  | nil =>
    cases reachable with
    | false =>
      refine ⟨none, [], s, ?_, .refl _ _ _ _⟩
      simp only [next, List.isEmpty_nil, if_true, refillDown]
      rfl
    | true =>
      have taken : (s.drain (Store.artistId n)).2.actions (Store.artistId n) = [] := by
        rw [Store.actions, Store.pendingDrain, if_pos rfl]
        rfl
      have refilled := refillUp addresses n [] s
      rw [List.nil_append] at refilled
      cases fetched : s.actions (Store.artistId n) with
      | nil =>
        refine ⟨none, [], (s.drain (Store.artistId n)).2, ?_, s.drainHandsOut _, nofun, ?_⟩
        · simp only [next, List.isEmpty_nil, if_true, refilled, fetched]
          rfl
        · rw [taken, fetched]
          rfl
      | cons first rest =>
        refine ⟨some first, rest, (s.drain (Store.artistId n)).2, ?_, s.drainHandsOut _, nofun, ?_⟩
        · simp only [next, List.isEmpty_nil, if_true, refilled, fetched]
          rfl
        · rw [taken, fetched, List.append_nil]
          rfl

theorem pullRemote (addresses : c.Addresses host) (n : Nat) (buffer : List (Action Float)) (reachable : Bool)
    (s : Store) :
    ∃ answer left after,
      Supply.pull (Moves.remote ⟨c, Store.artistId n, buffer⟩, Network.serving host reachable s) =
        (answer, Moves.remote ⟨c, Store.artistId n, left⟩, Network.serving host reachable after) ∧
      Delivery (Store.artistId n) reachable buffer s answer.action?.toList left after := by
  obtain ⟨action, left, after, next, delivery⟩ := nextRemote addresses n buffer reachable s
  cases action with
  | none =>
    refine ⟨.waiting, left, after, ?_, delivery⟩
    simp only [Supply.pull, Moves.pull, next]
  | some action =>
    refine ⟨.ready action, left, after, ?_, delivery⟩
    simp only [Supply.pull, Moves.pull, next]

/- Induction on the pulls: each of them hands out the front of what is buffered and queued, or nothing. -/
theorem handedRemote (addresses : c.Addresses host) (n : Nat) {buffer : List (Action Float)} {reachable : Bool}
    {s : Store} {actions : List (Action Float)} {last : Moves × Network}
    (handed : Handed (Moves.remote ⟨c, Store.artistId n, buffer⟩, Network.serving host reachable s) actions last) :
    ∃ left after, last = (Moves.remote ⟨c, Store.artistId n, left⟩, Network.serving host reachable after) ∧
      Delivery (Store.artistId n) reachable buffer s actions left after := by
  generalize start : (Moves.remote ⟨c, Store.artistId n, buffer⟩, Network.serving host reachable s) = first at handed
  induction handed generalizing buffer s with
  | rest supply => exact ⟨buffer, s, start.symm, .refl _ _ _ _⟩
  | pulled pull later ih =>
    obtain ⟨answer, left, middle, found, delivery⟩ := pullRemote addresses n buffer reachable s
    rw [start, pull, Prod.mk.injEq] at found
    obtain ⟨rfl, next⟩ := found
    obtain ⟨rest, after, ended, later⟩ := ih next.symm
    exact ⟨rest, after, ended, delivery.trans later⟩

end RemoteMoves
end TurtleBoard
