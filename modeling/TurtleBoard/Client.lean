import TurtleBoard.Service

/-! The client of the service, and what carries its requests. A client sees an answer or none, and turns anything but a
well-formed answer into an error that names the address. -/
namespace TurtleBoard

/- What carries requests: an answer, or none when nobody can be reached. At most `stock` moves can still arrive. -/
class Link (ω : Type) where
  send : Request → ω → Option Response × ω
  stock : ω → Nat

structure Network where
  host : String
  service : Option Store

namespace Network

def send (r : Request) (n : Network) : Option Response × Network :=
  match n.service with
  | some store =>
      if r.host = n.host then
        let (response, store) := Service.answer r store
        (some response, { n with service := some store })
      else (none, n)
  | none => (none, n)

def stock (n : Network) : Nat :=
  match n.service with
  | some store => store.pendingCount
  | none => 0

instance : Link Network := ⟨send, stock⟩

end Network

structure Replies where
  answers : List (Option Response)
  requests : List Request := []

namespace Replies

def send (r : Request) (replies : Replies) : Option Response × Replies :=
  match replies.answers with
  | [] => (none, { replies with requests := replies.requests ++ [r] })
  | answer :: answers => (answer, ⟨answers, replies.requests ++ [r]⟩)

def stock (replies : Replies) : Nat :=
  replies.answers.foldr (fun answer n => (answer.map (·.body.size)).getD 0 + n) 0

instance : Link Replies := ⟨send, stock⟩

end Replies

inductive ClientError where
  | get (url : String)
  | post (url : String)
  | decode (what url : String)
  deriving DecidableEq, Repr

def ClientError.message : ClientError → String
  | get url => "Failed to get " ++ url
  | post url => "Failed to post " ++ url
  | decode what url => "Failed to decode " ++ what ++ " from " ++ url

structure Client where
  baseUrl : String
  deriving DecidableEq, Repr

namespace Client
variable {ω : Type} [Link ω]

def ofBase (base : String) : Client := ⟨String.ofList (base.toList.reverse.dropWhile (· == '/')).reverse⟩

def artistsUrl (c : Client) : String := c.baseUrl ++ "/api/artists"
def movesUrl (c : Client) (id : String) : String := c.baseUrl ++ "/api/artists/" ++ id ++ "/moves"

def request (method url : String) (body : ByteArray) (link : ω) : Option Response × ω :=
  match Url.parse? url with
  | none => (none, link)
  | some address =>
      let (answer, link) := Link.send ⟨method, address.host, address.target, body⟩ link
      (answer.filter fun response => response.status < 400 || 600 ≤ response.status, link)

def get {β : Type} (url what : String) (read : Json → Option β) (link : ω) : Except ClientError (List β) × ω :=
  match request "GET" url .empty link with
  | (none, link) => (.error (.get url), link)
  | (some response, link) =>
      match (Json.ofBytes? response.body).bind (Json.list? read) with
      | some records => (.ok records, link)
      | none => (.error (.decode what url), link)

def post {β : Type} (url what : String) (body : Json) (read : Json → Option β) (link : ω) :
    Except ClientError β × ω :=
  match request "POST" url body.toBytes link with
  | (none, link) => (.error (.post url), link)
  | (some response, link) =>
      match (Json.ofBytes? response.body).bind read with
      | some record => (.ok record, link)
      | none => (.error (.decode what url), link)

def artists (c : Client) (link : ω) : Except ClientError (List Artist) × ω :=
  get c.artistsUrl "artists" Artist.ofJson? link

def drainMoves (c : Client) (id : String) (link : ω) : Except ClientError (List Move) × ω :=
  get (c.movesUrl id) "moves" Move.ofJson? link

def createArtist (c : Client) (name : String) (link : ω) : Except ClientError Artist × ω :=
  post c.artistsUrl "artist" (NewArtist.toJson ⟨name⟩) Artist.ofJson? link

def addMove (c : Client) (id description : String) (link : ω) : Except ClientError Move × ω :=
  post (c.movesUrl id) "move" (NewMove.toJson ⟨description⟩) Move.ofJson? link

end Client
end TurtleBoard
