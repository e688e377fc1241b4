import TurtleBoard.Wire

/-! The store of the service: artists in the order they came, and for each the moves that wait for delivery. Taking an
artist's moves empties the queue. -/
namespace TurtleBoard

structure Store where
  artists : List Artist := []
  queues : List (String × List Move) := []
  artistCount : Nat := 0
  moveCount : Nat := 0
  deriving DecidableEq, Repr

namespace Store

def hasArtist (s : Store) (id : String) : Bool := s.artists.any (·.id == id)

def pending (s : Store) (id : String) : List Move := ((s.queues.find? (·.1 == id)).map (·.2)).getD []

def enqueue (id : String) (move : Move) : List (String × List Move) → List (String × List Move)
  | [] => [(id, [move])]
  | (owner, moves) :: queues =>
      if owner = id then (owner, moves ++ [move]) :: queues else (owner, moves) :: enqueue id move queues

def push (s : Store) (id : String) (description : String) : Move × Store :=
  let move : Move := ⟨s!"move{s.moveCount + 1}", description⟩
  (move, { s with moveCount := s.moveCount + 1, queues := enqueue id move s.queues })

def create (s : Store) (name : String) : Artist × Store :=
  let artist : Artist := ⟨s!"artist{s.artistCount + 1}", name⟩
  let listed := { s with artistCount := s.artistCount + 1, artists := s.artists ++ [artist] }
  (artist, (listed.push artist.id ("say " ++ name)).2)

def add (s : Store) (id description : String) : Option (Move × Store) :=
  if s.hasArtist id then some (s.push id description) else none

def drain (s : Store) (id : String) : List Move × Store :=
  (s.pending id, { s with queues := s.queues.filter (·.1 != id) })

def pendingCount (s : Store) : Nat := (s.queues.flatMap (·.2)).length

end Store
end TurtleBoard
