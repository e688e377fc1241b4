import TurtleBoard.Json.Reader
import TurtleBoard.Json.Writer

/-! What the service and its clients send each other: artists, their moves, and requests for new ones. -/
namespace TurtleBoard

structure Artist where
  id : String
  name : String
  deriving DecidableEq, Repr

structure Move where
  id : String
  description : String
  deriving DecidableEq, Repr

structure NewArtist where
  name : String
  deriving DecidableEq, Repr

structure NewMove where
  description : String
  deriving DecidableEq, Repr

def Artist.toJson (a : Artist) : Json := .ofFields [("ID", .ofText a.id), ("Name", .ofText a.name)]

def Artist.ofJson? (json : Json) : Option Artist := do
  match ← json.fields? ["ID", "Name"] with
  | [some id, some name] => return ⟨← id.text?, ← name.text?⟩
  | _ => none

def Move.toJson (m : Move) : Json := .ofFields [("ID", .ofText m.id), ("Description", .ofText m.description)]

def Move.ofJson? (json : Json) : Option Move := do
  match ← json.fields? ["ID", "Description"] with
  | [some id, some description] => return ⟨← id.text?, ← description.text?⟩
  | [none, some description] => return ⟨"", ← description.text?⟩
  | _ => none

def NewArtist.toJson (a : NewArtist) : Json := .ofFields [("Name", .ofText a.name)]

def NewArtist.ofJson? (json : Json) : Option NewArtist := do
  match ← json.fields? ["Name"] with
  | [some name] => return ⟨← name.text?⟩
  | _ => none

def NewMove.toJson (m : NewMove) : Json := .ofFields [("Description", .ofText m.description)]

def NewMove.ofJson? (json : Json) : Option NewMove := do
  match ← json.fields? ["Description"] with
  | [some description] => return ⟨← description.text?⟩
  | _ => none

def Json.list? {β : Type} (read : Json → Option β) : Json → Option (List β)
  | .null => some []
  | .array items => items.mapM read
  | _ => none

end TurtleBoard
