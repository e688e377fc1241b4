import Mathlib.Data.String.Basic
import TurtleBoard.Proofs.Exchange

/-! Nothing is lost between a client and the service. What is encoded is decoded as it was, whatever characters it is
made of; so the store has the very names and descriptions that clients sent, as far as their bodies are not too long to
be read, and clients get the very records that the store has. -/
namespace TurtleBoard

namespace Json
variable {β : Type} {read : Json → Option β} {write : β → Json}

theorem decodeEncoded (reads : ∀ x, Reads (write x)) (back : ∀ x, read (write x) = some x) (x : β) :
    (ofBytes? (write x).toBytes).bind read = some x := by
  rw [ofToBytes (reads x), Option.bind_some, back]

theorem decodeRecords (reads : ∀ x, Reads (write x)) (back : ∀ x, read (write x) = some x) (xs : List β) :
    (ofBytes? (Json.array (xs.map write)).toBytes).bind (list? read) = some xs := by
  rw [ofToBytes (readsRecords reads xs), Option.bind_some, listOfArray back]

theorem writeCharFilled (c : Char) : 1 ≤ (writeChar c).length := by
  unfold writeChar
  split
  any_goals decide
  split
  · exact Nat.le_add_left 1 _
  · exact le_rfl

theorem writeTextLength (text : String) : text.length + 2 ≤ (ofText text).write.length := by
  have each (cs : List Char) : cs.length ≤ ((cs.map Piece.char).flatMap writePiece).length := by
    induction cs with
    | nil => exact le_rfl
    | cons c cs ih =>
      have first := writeCharFilled c
      rw [List.map_cons, List.flatMap_cons, List.length_append, List.length_cons, writePiece]
      omega
  have inside := each text.toList
  rw [String.length_toList] at inside
  rw [ofText, write, writeString, List.length_cons, List.length_append, List.length_singleton]
  omega

theorem sizeToBytes (value : Json) : value.write.length ≤ value.toBytes.size := by
  have each (cs : List Char) : cs.length ≤ String.utf8Len cs := by
    induction cs with
    | nil => exact le_rfl
    | cons c cs ih =>
      have first := c.utf8Size_pos
      rw [List.length_cons, String.utf8Len_cons]
      omega
  rw [toBytes, compact, String.toUTF8_eq_toByteArray, String.size_toByteArray, String.utf8ByteSize_ofList]
  exact each value.write

end Json

theorem NewArtist.bodyLonger (name : String) : name.length < (NewArtist.toJson ⟨name⟩).toBytes.size := by
  have written : (NewArtist.toJson ⟨name⟩).write =
      "\x7b\"Name\":".toList ++ (Json.ofText name).write ++ "\x7d".toList := by
    rw [toJson, Json.ofFields, List.map_singleton, Json.write, Json.writeMembers]
    rfl
  have bytes := (NewArtist.toJson ⟨name⟩).sizeToBytes
  have text := Json.writeTextLength name
  rw [written, List.length_append, List.length_append] at bytes
  omega

namespace Client
variable {c : Client} {host : String}

structure Lossless (c : Client) (host : String) : Prop where
  artist : ∀ a : Artist, (Json.ofBytes? a.toJson.toBytes).bind Artist.ofJson? = some a
  move : ∀ m : Move, (Json.ofBytes? m.toJson.toBytes).bind Move.ofJson? = some m
  newArtist : ∀ a : NewArtist, (Json.ofBytes? a.toJson.toBytes).bind NewArtist.ofJson? = some a
  newMove : ∀ m : NewMove, (Json.ofBytes? m.toJson.toBytes).bind NewMove.ofJson? = some m
  roster : ∀ artists : List Artist,
    (Json.ofBytes? (Json.array (artists.map Artist.toJson)).toBytes).bind (Json.list? Artist.ofJson?) = some artists
  moves : ∀ moves : List Move,
    (Json.ofBytes? (Json.array (moves.map Move.toJson)).toBytes).bind (Json.list? Move.ofJson?) = some moves
  created : ∀ (name : String) (s : Store), (NewArtist.toJson ⟨name⟩).toBytes.size ≤ Service.bodyLimit →
    ∃ artist after, c.createArtist name (Network.mk host (some s)) = (.ok artist, Network.mk host (some after)) ∧
      artist.name = name ∧ after.artists = s.artists ++ [artist] ∧
      ∃ move : Move, move.description = "say " ++ name ∧
        ∀ id, after.pending id = s.pending id ++ if id = artist.id then [move] else []
  added : ∀ (n : Nat) (description : String) (s : Store), s.hasArtist (Store.artistId n) = true →
    (NewMove.toJson ⟨description⟩).toBytes.size ≤ Service.bodyLimit →
    ∃ move after, c.addMove (Store.artistId n) description (Network.mk host (some s)) =
        (.ok move, Network.mk host (some after)) ∧
      move.description = description ∧ after.artists = s.artists ∧
      ∀ id, after.pending id = s.pending id ++ if id = Store.artistId n then [move] else []
  listed : ∀ s : Store, c.artists (Network.mk host (some s)) = (.ok s.artists, Network.mk host (some s))
  drained : ∀ (n : Nat) (s : Store), ∃ after,
    c.drainMoves (Store.artistId n) (Network.mk host (some s)) =
        (.ok (s.pending (Store.artistId n)), Network.mk host (some after)) ∧
      after.artists = s.artists ∧
      ∀ id, after.pending id = if id = Store.artistId n then [] else s.pending id
  nameTooLong : ∀ (name : String) (s : Store), Service.bodyLimit < (NewArtist.toJson ⟨name⟩).toBytes.size →
    c.createArtist name (Network.mk host (some s)) = (.error (.post c.artistsUrl), Network.mk host (some s))
  descriptionTooLong : ∀ (n : Nat) (description : String) (s : Store),
    Service.bodyLimit < (NewMove.toJson ⟨description⟩).toBytes.size →
    c.addMove (Store.artistId n) description (Network.mk host (some s)) =
      (.error (.post (c.movesUrl (Store.artistId n))), Network.mk host (some s))

theorem losesNothing (addresses : c.Addresses host) : Lossless c host where
  artist := Json.decodeEncoded Artist.reads Artist.ofToJson
  move := Json.decodeEncoded Move.reads Move.ofToJson
  newArtist := Json.decodeEncoded NewArtist.reads NewArtist.ofToJson
  newMove := Json.decodeEncoded NewMove.reads NewMove.ofToJson
  roster := Json.decodeRecords Artist.reads Artist.ofToJson
  moves := Json.decodeRecords Move.reads Move.ofToJson
  created := fun name s fits =>
    ⟨_, _, createUp addresses fits s, rfl, rfl, _, rfl, fun id => Store.pendingCreate s name id⟩
  added := fun n description s registered fits =>
    ⟨_, _, addUp addresses n fits registered, rfl, rfl, Store.pendingPush s _ description⟩
  listed := artistsUp addresses
  drained := fun n s => ⟨_, drainUp addresses n s, rfl, Store.pendingDrain s _⟩
  nameTooLong := fun _ s tooLong => createTooLong addresses tooLong s
  descriptionTooLong := fun n description _ tooLong => addRefused addresses n description (.inl tooLong)

theorem losesNothingAtLocalhost :
    (Client.ofBase ("http://" ++ "localhost:8080")).Addresses "localhost:8080" ∧
      Lossless (Client.ofBase ("http://" ++ "localhost:8080")) "localhost:8080" := by
  have addresses : (Client.ofBase ("http://" ++ "localhost:8080")).Addresses "localhost:8080" :=
    Client.plainAddresses ⟨by decide, rfl, rfl⟩
  exact ⟨addresses, losesNothing addresses⟩

theorem longNameLost :
    let c := Client.ofBase ("http://" ++ "localhost:8080")
    let name := String.ofList (List.replicate Service.bodyLimit 'x')
    let n := Network.mk "localhost:8080" (some {})
    c.createArtist name n = (.error (.post c.artistsUrl), n) := by
  intro c name n
  have addresses : c.Addresses "localhost:8080" := Client.plainAddresses ⟨by decide, rfl, rfl⟩
  apply createTooLong addresses
  have length : name.length = Service.bodyLimit := by rw [String.length_ofList, List.length_replicate]
  exact length ▸ NewArtist.bodyLonger name

end Client
end TurtleBoard
