import TurtleBoard.Store
import TurtleBoard.Url

/-! The requests that the service answers: the roster, new artists, the moves of an artist, and new moves. A request
that fails leaves the store alone. Taking moves empties the queue, also when only the head of the answer is asked for.
-/
namespace TurtleBoard

structure Request where
  method : String
  host : String
  target : String
  body : ByteArray

structure Response where
  status : Nat
  body : ByteArray

inductive Route where
  | artists
  | moves (id : List Char)
  deriving DecidableEq, Repr

def Route.ofTarget? (target : String) : Option Route :=
  match Text.fields (· == '/') (target.toList.takeWhile fun c => c != '?' && c != '#') with
  | [[], api, roster] => if api = "api".toList ∧ roster = "artists".toList then some .artists else none
  | [[], api, roster, id, queue] =>
      if api = "api".toList ∧ roster = "artists".toList ∧ queue = "moves".toList then some (.moves id) else none
  | _ => none

namespace Response

def json (value : Json) : Response := ⟨200, value.toBytes⟩
def text (status : Nat) (body : String) : Response := ⟨status, body.toUTF8⟩
def empty (status : Nat) : Response := ⟨status, .empty⟩

/- The text of a bad request is not part of the service's contract. -/
def badRequest : Response := text 400 "bad request"

def unknownArtist (id : String) : Response := text 404 ("no artist " ++ id)

def tooLong : Response := text 413 "Failed to buffer the request body: length limit exceeded"

def head (r : Response) : Response := { r with body := .empty }

end Response

namespace Service

def listArtists (s : Store) : Response × Store :=
  (.json (.array (s.artists.map Artist.toJson)), s)

def bodyLimit : Nat := 2 * 1024 * 1024

def createArtist (body : ByteArray) (s : Store) : Response × Store :=
  if bodyLimit < body.size then (.tooLong, s) else
  match (Json.ofBytes? body).bind NewArtist.ofJson? with
  | none => (.badRequest, s)
  | some input =>
      let (artist, s) := s.create input.name
      (.json artist.toJson, s)

def drainMoves (id : List Char) (s : Store) : Response × Store :=
  match Percent.decode? id with
  | none => (.badRequest, s)
  | some id =>
      let (moves, s) := s.drain id
      (.json (.array (moves.map Move.toJson)), s)

/- An unknown artist is found before the body is taken apart. -/
def createMove (id : List Char) (body : ByteArray) (s : Store) : Response × Store :=
  match Percent.decode? id with
  | none => (.badRequest, s)
  | some id =>
      if bodyLimit < body.size then (.tooLong, s)
      else if s.hasArtist id then
        match (Json.ofBytes? body).bind NewMove.ofJson? with
        | none => (.badRequest, s)
        | some input =>
            match s.add id input.description with
            | some (move, s) => (.json move.toJson, s)
            | none => (.unknownArtist id, s)
      else (.unknownArtist id, s)

def get (route : Route) (s : Store) : Response × Store :=
  match route with
  | .artists => listArtists s
  | .moves id => drainMoves id s

def post (route : Route) (body : ByteArray) (s : Store) : Response × Store :=
  match route with
  | .artists => createArtist body s
  | .moves id => createMove id body s

def answer (r : Request) (s : Store) : Response × Store :=
  match Route.ofTarget? r.target with
  | none => (.empty 404, s)
  | some route =>
      match r.method with
      | "GET" => get route s
      | "HEAD" =>
          let (response, s) := get route s
          (response.head, s)
      | "POST" => post route r.body s
      | _ => (.empty 405, s)

end Service
end TurtleBoard
