import TurtleBoard.Client
import TurtleBoard.Script
import TurtleBoard.Supply

/-! Where actors come from and where they take their actions: scripts, read once, or artists of the service, whose moves
are fetched when the actor has none left. A failed request only ever means that there is nothing new. -/
namespace TurtleBoard

structure RemoteMoves where
  client : Client
  artistId : String
  pending : List (Action Float) := []

namespace RemoteMoves
variable {ω : Type} [Link ω]

def refill (r : RemoteMoves) (link : ω) : RemoteMoves × ω :=
  match r.client.drainMoves r.artistId link with
  | (.ok moves, link) => ({ r with pending := r.pending ++ moves.filterMap fun m => Line.action? m.description }, link)
  | (.error _, link) => (r, link)

def pop (r : RemoteMoves) : Option (Action Float) × RemoteMoves :=
  match r.pending with
  | [] => (none, r)
  | action :: pending => (some action, { r with pending })

def next (r : RemoteMoves) (link : ω) : Option (Action Float) × RemoteMoves × ω :=
  let (r, link) := if r.pending.isEmpty then r.refill link else (r, link)
  let (action, r) := r.pop
  (action, r, link)

end RemoteMoves

inductive Moves where
  | script (sequence : Sequence Float)
  | remote (moves : RemoteMoves)

namespace Moves
variable {ω : Type} [Link ω]

def pull (moves : Moves) (link : ω) : Pull Float × Moves × ω :=
  match moves with
  | .script sequence =>
      let (answer, sequence) := sequence.pull
      (answer, .script sequence, link)
  | .remote moves =>
      match moves.next link with
      | (some action, moves, link) => (.ready action, .remote moves, link)
      | (none, moves, link) => (.waiting, .remote moves, link)

def bound (moves : Moves) (link : ω) : Nat :=
  match moves with
  | .script sequence => sequence.size
  | .remote moves => moves.pending.length + Link.stock link

instance : Supply (Moves × ω) Float := ⟨fun (moves, link) => moves.pull link, fun (moves, link) => moves.bound link⟩

end Moves

structure Newcomer where
  id : String
  moves : Moves

def Newcomer.scripted (id script : String) : Newcomer := ⟨id, .script (.ofActions (Script.parse script))⟩

inductive Source where
  | scripts (newcomers : List Newcomer)
  | remote (client : Client)

namespace Source
variable {ω : Type} [Link ω]

def ofScripts (scripts : List String) : Source :=
  .scripts (scripts.mapIdx fun i script => .scripted (toString i) script)

def poll (source : Source) (link : ω) : List Newcomer × Source × ω :=
  match source with
  | .scripts newcomers => (newcomers, .scripts [], link)
  | .remote client =>
      match client.artists link with
      | (.ok artists, link) =>
          (artists.map fun artist => ⟨artist.id, .remote ⟨client, artist.id, []⟩⟩, .remote client, link)
      | (.error _, link) => ([], .remote client, link)

end Source
end TurtleBoard
