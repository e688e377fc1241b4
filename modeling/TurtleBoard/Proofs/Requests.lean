import TurtleBoard.Service
import TurtleBoard.Proofs.Addresses
import TurtleBoard.Proofs.Store

/-! Everything that a request can come to, whatever its method, its path and its body. A request that fails leaves no
trace: the store is as it was, and so is each later answer. Whether a new move is taken depends on the length of its
body first, then on its artist, and on what the body says last. -/
namespace TurtleBoard

namespace Request

def queue? (r : Request) : Option String :=
  match Route.ofTarget? r.target with
  | some (.moves id) => Percent.decode? id
  | some .artists | none => none

def artist? (r : Request) : Option NewArtist := (Json.ofBytes? r.body).bind NewArtist.ofJson?

def move? (r : Request) : Option NewMove := (Json.ofBytes? r.body).bind NewMove.ofJson?

end Request

namespace Response

def record? {β : Type} (read : Json → Option β) (r : Response) : Option β := (Json.ofBytes? r.body).bind read

/- The moves that an answer lists. The answer to a new move shows that move alone, which is no list. -/
def moves (r : Response) : List Move := (r.record? (Json.list? Move.ofJson?)).getD []

theorem recordJson {β : Type} (read : Json → Option β) {value : Json} (reads : Json.Reads value) :
    (json value).record? read = read value := by
  simp only [record?, json, Json.ofToBytes reads, Option.bind_some]

theorem movesList (moves : List Move) : (json (.array (moves.map Move.toJson))).moves = moves := by
  rw [Response.moves, recordJson _ (Json.readsRecords Move.reads moves), Json.listOfArray Move.ofToJson]
  rfl

theorem movesRoster (artists : List Artist) : (json (.array (artists.map Artist.toJson))).moves = [] := by
  rw [moves, recordJson _ (Json.readsRecords Artist.reads artists), Json.list?]
  cases artists with
  | nil => rfl
  | cons artist artists =>
    have fields : artist.toJson.fields? ["ID", "Description"] = some [some (.ofText artist.id), none] :=
      Json.fieldsOfFields _ _
    have undescribed : Move.ofJson? artist.toJson = none := by
      simp only [Move.ofJson?, fields, Option.bind_eq_bind, Option.bind_some]
    rw [List.map_cons, List.mapM_cons, undescribed]
    rfl

theorem movesArtist (a : Artist) : (json a.toJson).moves = [] := by
  rw [moves, recordJson _ a.reads]
  rfl

theorem movesMove (m : Move) : (json m.toJson).moves = [] := by
  rw [moves, recordJson _ m.reads]
  rfl

theorem movesText (status : Nat) (body : String) (noValue : Json.read? (body.toList.map some) = none) :
    (text status body).moves = [] := by
  simp only [moves, record?, text, Json.ofBytes?, Utf8.charsOfText, noValue, Option.bind_none, Option.getD_none]

theorem movesEmpty (status : Nat) : (empty status).moves = [] := movesText status "" rfl

theorem movesBadRequest : badRequest.moves = [] := movesText 400 _ rfl

theorem movesTooLong : tooLong.moves = [] := movesText 413 _ rfl

theorem movesUnknownArtist (id : String) : (unknownArtist id).moves = [] := by
  apply movesText
  rw [String.toList_append]
  rfl

end Response

namespace Service

inductive Outcome (r : Request) (s : Store) : Response × Store → Prop where
  | refused {response : Response} (status : response.status ≠ 200) (silent : response.moves = []) :
      Outcome r s (response, s)
  | roster {response : Response} (method : r.method ≠ "POST") (queue : r.queue? = none)
      (status : response.status = 200) (silent : response.moves = []) : Outcome r s (response, s)
  | created {input : NewArtist} (method : r.method = "POST") (queue : r.queue? = none) (body : r.artist? = some input) :
      Outcome r s (.json (s.create input.name).1.toJson, (s.create input.name).2)
  | taken {id : String} (method : r.method = "GET") (queue : r.queue? = some id) :
      Outcome r s (.json (.array ((s.pending id).map Move.toJson)), (s.drain id).2)
  | dropped {id : String} (method : r.method = "HEAD") (queue : r.queue? = some id) :
      Outcome r s (.empty 200, (s.drain id).2)
  | added {id : String} {input : NewMove} (method : r.method = "POST") (queue : r.queue? = some id)
      (registered : s.hasArtist id = true) (body : r.move? = some input) :
      Outcome r s (.json (s.push id input.description).1.toJson, (s.push id input.description).2)

variable {r : Request} {s : Store}

theorem refusedBadRequest : Outcome r s (.badRequest, s) := .refused (by decide) Response.movesBadRequest

theorem refusedTooLong : Outcome r s (.tooLong, s) := .refused (by decide) Response.movesTooLong

theorem refusedUnknown (id : String) : Outcome r s (.unknownArtist id, s) :=
  .refused (by simp [Response.unknownArtist, Response.text]) (Response.movesUnknownArtist id)

theorem postQueue {coded : List Char} {id : String} (decoded : Percent.decode? coded = some id) :
    post (.moves coded) r.body s =
      if bodyLimit < r.body.size then (.tooLong, s)
      else if s.hasArtist id then
        match r.move? with
        | none => (.badRequest, s)
        | some input => (.json (s.push id input.description).1.toJson, (s.push id input.description).2)
      else (.unknownArtist id, s) := by
  have read : (Json.ofBytes? r.body).bind NewMove.ofJson? = r.move? := rfl
  simp only [post, createMove, decoded, read]
  cases registered : s.hasArtist id with
  | false => rfl
  | true =>
    cases r.move? with
    | none => rfl
    | some input => simp only [if_true, Store.add, registered]

theorem artistsOutcome (route : Route.ofTarget? r.target = some .artists) : Outcome r s (answer r s) := by
  have queue : r.queue? = none := by rw [Request.queue?, route]
  simp only [answer, route]
  split
  · rename_i method
    exact .roster (by rw [method]; decide) queue rfl (Response.movesRoster _)
  · rename_i method
    exact .roster (by rw [method]; decide) queue rfl (Response.movesEmpty 200)
  · rename_i method
    simp only [post, createArtist]
    split
    · exact refusedTooLong
    · split
      · exact refusedBadRequest
      · rename_i body
        exact .created method queue body
  · exact .refused (by decide) (Response.movesEmpty 405)

theorem movesOutcome {id : List Char} (route : Route.ofTarget? r.target = some (.moves id)) :
    Outcome r s (answer r s) := by
  have queue : r.queue? = Percent.decode? id := by rw [Request.queue?, route]
  simp only [answer, route]
  cases decoded : Percent.decode? id with
  | none =>
    split
    · simp only [get, drainMoves, decoded]
      exact refusedBadRequest
    · simp only [get, drainMoves, decoded]
      exact .refused (by decide) (Response.movesEmpty 400)
    · simp only [post, createMove, decoded]
      exact refusedBadRequest
    · exact .refused (by decide) (Response.movesEmpty 405)
  | some id =>
    rw [decoded] at queue
    split
    · rename_i method
      simp only [get, drainMoves, decoded]
      exact .taken method queue
    · rename_i method
      simp only [get, drainMoves, decoded]
      exact .dropped method queue
    · rename_i method
      rw [postQueue decoded]
      split
      · exact refusedTooLong
      · split
        · rename_i registered
          split
          · exact refusedBadRequest
          · rename_i body
            exact .added method queue registered body
        · exact refusedUnknown id
    · exact .refused (by decide) (Response.movesEmpty 405)

theorem answerOutcome (r : Request) (s : Store) : Outcome r s (answer r s) := by
  cases route : Route.ofTarget? r.target with
  | none =>
    simp only [answer, route]
    exact .refused (by decide) (Response.movesEmpty 404)
  | some reached =>
    cases reached with
    | artists => exact artistsOutcome route
    | moves id => exact movesOutcome route

theorem statusOfMove {id : String} (method : r.method = "POST") (queue : r.queue? = some id) :
    (answer r s).1.status =
      if bodyLimit < r.body.size then 413
      else if s.hasArtist id then if r.move?.isSome then 200 else 400
      else 404 := by
  cases route : Route.ofTarget? r.target with
  | none => simp only [Request.queue?, route, reduceCtorEq] at queue
  | some reached =>
    cases reached with
    | artists => simp only [Request.queue?, route, reduceCtorEq] at queue
    | moves coded =>
      have decoded : Percent.decode? coded = some id := by simpa only [Request.queue?, route] using queue
      simp only [answer, route, method, postQueue decoded]
      split
      · rfl
      · cases s.hasArtist id with
        | false => rfl
        | true => cases r.move? <;> rfl

def responses (s : Store) : List Request → List Response
  | [] => []
  | r :: later => (answer r s).1 :: responses (answer r s).2 later

theorem failuresLeaveNoTrace (r : Request) (s : Store) :
    ((answer r s).1.status ≠ 200 →
      (answer r s).2 = s ∧ ∀ later, responses s (r :: later) = (answer r s).1 :: responses s later) ∧
    ∀ id, r.method = "POST" → r.queue? = some id →
      (answer r s).1.status =
        if bodyLimit < r.body.size then 413
        else if s.hasArtist id then if r.move?.isSome then 200 else 400
        else 404 := by
  refine ⟨fun failed => ?_, fun id method queue => statusOfMove method queue⟩
  have kept : (answer r s).2 = s := by
    have outcome := answerOutcome r s
    generalize answer r s = answered at outcome failed
    cases outcome with
    | refused | roster => rfl
    | created | taken | dropped | added => exact absurd rfl failed
  exact ⟨kept, fun later => by rw [responses, kept]⟩

theorem queueOfArtistId {target : String} {n : Nat}
    (route : Route.ofTarget? target = some (.moves (Store.artistId n).toList)) (method host : String)
    (body : ByteArray) : (Request.mk method host target body).queue? = some (Store.artistId n) := by
  simp only [Request.queue?, route]
  exact Store.decodeArtistId n

theorem failuresLeaveNoTraceOfStranger :
    let s := (Store.create {} "Ann").2
    let r : Request := ⟨"POST", "localhost", "/api/artists/artist2/moves", .empty⟩
    (answer r s).1.status = 404 ∧ (answer r s).2 = s ∧
      ∀ later, responses s (r :: later) = (answer r s).1 :: responses s later := by
  intro s r
  have route : Route.ofTarget? "/api/artists/artist2/moves" = some (.moves (Store.artistId 2).toList) := by decide
  have queue : r.queue? = some (Store.artistId 2) := queueOfArtistId route _ _ _
  have status := (failuresLeaveNoTrace r s).2 _ rfl queue
  have stranger : s.hasArtist (Store.artistId 2) = false := by decide
  rw [stranger] at status
  exact ⟨status, (failuresLeaveNoTrace r s).1 (by rw [status]; decide)⟩

theorem longBodyHidesStranger :
    let r : Request := ⟨"POST", "localhost", "/api/artists/artist1/moves", ⟨Array.replicate (bodyLimit + 1) 120⟩⟩
    r.queue? = some "artist1" ∧ Store.hasArtist {} "artist1" = false ∧ (answer r {}).1.status = 413 := by
  intro r
  have route : Route.ofTarget? "/api/artists/artist1/moves" = some (.moves (Store.artistId 1).toList) := by decide
  have queue : r.queue? = some "artist1" := queueOfArtistId route _ _ _
  have tooLong : bodyLimit < r.body.size := by
    have size : r.body.size = bodyLimit + 1 := Array.size_replicate
    omega
  have status := statusOfMove (s := {}) rfl queue
  rw [if_pos tooLong] at status
  exact ⟨queue, rfl, status⟩

end Service
end TurtleBoard
