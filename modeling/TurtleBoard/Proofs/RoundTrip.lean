import TurtleBoard.Wire

/-! Written JSON reads back as it was: strings, arrays and objects, which are all that is sent. The fuel of the reader
is never the reason that it fails here; a value needs no more than the length of its text. -/
namespace TurtleBoard

namespace Utf8

theorem charsFromEncoded (before : ByteArray) (text : List Char) :
    charsFrom (before ++ text.utf8Encode) before.size = text.map some := by
  induction text generalizing before with
  | nil =>
    rw [charsFrom, List.utf8Encode_nil, ByteArray.append_empty]
    simp only [Nat.lt_irrefl, dite_false, List.map_nil]
  | cons c text ih =>
    have decoded : (before ++ (c :: text).utf8Encode).utf8DecodeChar? before.size = some c := by
      rw [ByteArray.utf8DecodeChar?_eq_utf8DecodeChar?_extract,
        ByteArray.extract_append_eq_right rfl ByteArray.size_append]
      exact List.utf8DecodeChar?_utf8Encode_cons
    have size : before.size + c.utf8Size = (before ++ [c].utf8Encode).size := by
      simp only [List.utf8Encode_singleton, ByteArray.size_append, List.size_toByteArray, String.length_utf8EncodeChar]
    have room : before.size < (before ++ (c :: text).utf8Encode).size :=
      ByteArray.lt_size_of_isSome_utf8DecodeChar? (Option.isSome_of_eq_some decoded)
    have later := ih (before ++ [c].utf8Encode)
    rw [ByteArray.append_assoc, ← List.utf8Encode_cons, ← size] at later
    rw [charsFrom, dif_pos room, decoded]
    exact congrArg (some c :: ·) later

theorem charsOfText (text : String) : chars text.toUTF8 = text.toList.map some := by
  have encoded : text.toUTF8 = ByteArray.empty ++ text.toList.utf8Encode := by
    rw [String.utf8Encode_toList, ByteArray.empty_append, String.toUTF8_eq_toByteArray]
  rw [chars, encoded]
  exact charsFromEncoded .empty text.toList

end Utf8

namespace Json

theorem hexCodeControl (n : Nat) (control : n < 32) :
    hexCode? (Text.hexDigit (n / 4096 % 16)) (Text.hexDigit (n / 256 % 16)) (Text.hexDigit (n / 16 % 16))
      (Text.hexDigit (n % 16)) = some n := by
  revert n
  decide

def addPiece (piece : Piece) (found : List Piece × List (Option Char)) : List Piece × List (Option Char) :=
  (piece :: found.1, found.2)

theorem stringEscape {c d : Char} (cs : List (Option Char)) (escape : escape? c = some d) :
    string? (some '\\' :: some c :: cs) = (string? cs).map (addPiece (.char d)) := by
  have notCode : c ≠ 'u' := by
    rintro rfl
    contradiction
  rw [string?]
  · rw [escape]
    cases string? cs <;> rfl
  · exact fun _ _ _ _ _ _ same => notCode same

theorem stringCode (code : Nat) (cs : List (Option Char)) (control : code < 32) :
    string? (some '\\' :: some 'u' :: ((hex4 code).map some ++ cs)) =
      (string? cs).map (addPiece (pieceOfCode code)) := by
  simp only [hex4, List.map_cons, List.map_nil, List.cons_append, List.nil_append]
  rw [string?, hexCodeControl code control]
  cases string? cs <;> rfl

theorem stringPlain {c : Char} (cs : List (Option Char)) (quote : c ≠ '"') (backslash : c ≠ '\\')
    (visible : ¬c.toNat < 0x20) : string? (some c :: cs) = (string? cs).map (addPiece (.char c)) := by
  rw [string?]
  · simp only [visible, backslash, decide_false, Bool.or_self, Bool.false_eq_true, if_false]
    rfl
  · exact quote
  · exact fun _ _ _ _ _ _ same => backslash same
  · exact fun _ _ _ same => backslash same

theorem stringChar (c : Char) (cs : List (Option Char)) :
    string? ((writeChar c).map some ++ cs) = (string? cs).map (addPiece (.char c)) := by
  unfold writeChar
  split
  · exact stringEscape cs rfl
  · exact stringEscape cs rfl
  · exact stringEscape cs rfl
  · exact stringEscape cs rfl
  · exact stringEscape cs rfl
  · exact stringEscape cs rfl
  · exact stringEscape cs rfl
  · rename_i quote backslash _ _ _ _ _
    split
    · rename_i control
      have piece : pieceOfCode c.toNat = .char c := by
        have notSurrogate : ¬(0xd800 ≤ c.toNat ∧ c.toNat < 0xe000) := by omega
        rw [pieceOfCode, if_neg notSurrogate, Char.ofNat_toNat]
      rw [← piece]
      exact stringCode c.toNat cs control
    · exact stringPlain cs quote backslash (by assumption)

theorem stringPieces (cs : List Char) (rest : List (Option Char)) :
    string? (((cs.map Piece.char).flatMap writePiece).map some ++ some '"' :: rest) =
      some (cs.map .char, rest) := by
  induction cs with
  | nil => rfl
  | cons c cs ih =>
    simp only [List.map_cons, List.flatMap_cons, List.map_append, List.append_assoc, writePiece]
    rw [stringChar, ih]
    rfl

/- A value whose text, with anything behind it, reads as that value. -/
structure Reads (value : Json) : Prop where
  opening : ∃ c cs, value.write = c :: cs ∧ isBlank (some c) = false ∧ c ≠ ']'
  reading : ∀ fuel rest, value.write.length ≤ fuel → value? fuel (value.write.map some ++ rest) = some (value, rest)

theorem skipNone {c : Char} (cs : List (Option Char)) (visible : isBlank (some c) = false) :
    skipBlanks (some c :: cs) = some c :: cs := by
  rw [skipBlanks, List.dropWhile_cons_of_neg]
  rw [visible]
  exact Bool.false_ne_true

theorem readsString (cs : List Char) : Reads (.string (cs.map .char)) := by
  refine ⟨⟨'"', _, rfl, rfl, by decide⟩, ?_⟩
  intro fuel rest enough
  cases fuel with
  | zero => simp only [write, writeString, List.length_cons] at enough; omega
  | succ fuel =>
    have read := stringPieces cs rest
    simp only [write, writeString, List.map_cons, List.map_append, List.map_nil, List.cons_append,
      List.append_assoc, List.nil_append]
    rw [value?, skipNone _ rfl]
    simp only [read, Option.map_some]

theorem writeItemsCons (item second : Json) (items : List Json) :
    writeItems (item :: second :: items) = item.write ++ ',' :: writeItems (second :: items) := by
  rw [writeItems]
  exact nofun

theorem writeMembersCons (name : List Piece) (value : Json) (second : List Piece × Json)
    (members : List (List Piece × Json)) :
    writeMembers ((name, value) :: second :: members) =
      writeString name ++ ':' :: (value.write ++ ',' :: writeMembers (second :: members)) := by
  rw [writeMembers]
  exact nofun

theorem readsItems {item : Json} {items : List Json} (reads : ∀ each ∈ item :: items, Reads each) (fuel : Nat)
    (rest : List (Option Char)) (enough : (writeItems (item :: items)).length < fuel) :
    items? fuel ((writeItems (item :: items)).map some ++ some ']' :: rest) = some (item :: items, rest) := by
  induction items generalizing item fuel with
  | nil =>
    have first := (reads item List.mem_cons_self).reading
    rw [writeItems] at enough ⊢
    cases fuel with
    | zero => omega
    | succ fuel =>
      rw [items?, first fuel _ (by omega)]
      rfl
  | cons second items ih =>
    have first := (reads item List.mem_cons_self).reading
    have later := fun each mem => reads each (List.mem_cons_of_mem _ mem)
    rw [writeItemsCons] at enough ⊢
    simp only [List.length_append, List.length_cons] at enough
    cases fuel with
    | zero => omega
    | succ fuel =>
      simp only [List.map_append, List.map_cons, List.append_assoc, List.cons_append]
      rw [items?, first fuel _ (by omega)]
      simp only [skipNone (c := ',') _ rfl, ih later fuel (by omega), Option.map_some]

theorem readsArray {items : List Json} (reads : ∀ item ∈ items, Reads item) : Reads (.array items) := by
  refine ⟨⟨'[', _, rfl, rfl, by decide⟩, ?_⟩
  intro fuel rest enough
  simp only [write, List.length_cons, List.length_append, List.length_nil] at enough
  cases fuel with
  | zero => omega
  | succ fuel =>
    simp only [write, List.map_cons, List.map_append, List.map_nil, List.cons_append, List.append_assoc,
      List.nil_append]
    rw [value?, skipNone _ rfl]
    cases items with
    | nil =>
      simp only [writeItems, List.map_nil, List.nil_append, skipNone (c := ']') _ rfl]
    | cons item items =>
      have read := readsItems reads fuel rest (by omega)
      obtain ⟨c, cs, opens, visible, notClosed⟩ := (reads item List.mem_cons_self).opening
      have starts : ∃ cs, (writeItems (item :: items)).map some ++ some ']' :: rest = some c :: cs := by
        cases items with
        | nil => exact ⟨_, by rw [writeItems, opens]; rfl⟩
        | cons second items => exact ⟨_, by rw [writeItemsCons, opens]; rfl⟩
      obtain ⟨cs, starts⟩ := starts
      rw [starts] at read ⊢
      simp only [skipNone _ visible]
      split
      · rename_i same
        have closed : c = ']' := by injection same with same; injection same
        contradiction
      · rw [read]
        rfl

theorem readsMember (name : List Char) {value : Json} (reads : Reads value) (fuel : Nat) (after : List (Option Char))
    (enough : value.write.length ≤ fuel) :
    let member := (writeString (name.map .char) ++ ':' :: value.write).map some
    members? (fuel + 1) (member ++ some ',' :: after) =
        (members? fuel after).map (fun (members, rest) => ((name.map .char, value) :: members, rest)) ∧
      members? (fuel + 1) (member ++ some '\x7d' :: after) = some ([(name.map .char, value)], after) := by
  have key (after : List (Option Char)) := stringPieces name (some ':' :: (value.write.map some ++ after))
  simp only [writeString, List.map_append, List.map_cons, List.append_assoc, List.cons_append, List.nil_append]
  constructor
  · rw [members?, skipNone _ rfl]
    simp only [key, skipNone (c := ':') _ rfl, reads.reading fuel _ enough, skipNone (c := ',') _ rfl]
  · rw [members?, skipNone _ rfl]
    simp only [key, skipNone (c := ':') _ rfl, reads.reading fuel _ enough, skipNone (c := '\x7d') _ rfl]

theorem readsMembers {name : List Char} {value : Json} {members : List (List Char × Json)}
    (reads : ∀ member ∈ (name, value) :: members, Reads member.2) (fuel : Nat) (rest : List (Option Char)) :
    let fields := ((name, value) :: members).map fun member => (member.1.map Piece.char, member.2)
    (writeMembers fields).length < fuel →
      members? fuel ((writeMembers fields).map some ++ some '\x7d' :: rest) = some (fields, rest) := by
  induction members generalizing name value fuel with
  | nil =>
    intro fields enough
    have first : Reads value := reads _ List.mem_cons_self
    simp only [fields, List.map_cons, List.map_nil, writeMembers, List.length_append, List.length_cons] at enough ⊢
    cases fuel with
    | zero => omega
    | succ fuel =>
      rw [(readsMember name first fuel rest (by omega)).2]
  | cons second members ih =>
    obtain ⟨other, next⟩ := second
    intro fields enough
    have first : Reads value := reads _ List.mem_cons_self
    have later := fun each mem => reads each (List.mem_cons_of_mem _ mem)
    have split : writeMembers fields = (writeString (name.map .char) ++ ':' :: value.write) ++
        ',' :: writeMembers (((other, next) :: members).map fun member => (member.1.map Piece.char, member.2)) := by
      simp only [fields, List.map_cons, writeMembersCons, List.append_assoc, List.cons_append]
    rw [split] at enough ⊢
    simp only [List.length_append, List.length_cons] at enough
    cases fuel with
    | zero => omega
    | succ fuel =>
      have next := ih later fuel (by omega)
      rw [List.map_append, List.append_assoc, List.map_cons, List.cons_append,
        (readsMember name first fuel _ (by omega)).1, next]
      rfl

theorem readsObject {members : List (List Char × Json)} (reads : ∀ member ∈ members, Reads member.2) :
    Reads (.object (members.map fun member => (member.1.map .char, member.2))) := by
  refine ⟨⟨'\x7b', _, rfl, rfl, by decide⟩, ?_⟩
  intro fuel rest enough
  simp only [write, List.length_cons, List.length_append, List.length_nil] at enough
  cases fuel with
  | zero => omega
  | succ fuel =>
    simp only [write, List.map_cons, List.map_append, List.map_nil, List.cons_append, List.append_assoc,
      List.nil_append]
    rw [value?, skipNone _ rfl]
    cases members with
    | nil =>
      simp only [List.map_nil, writeMembers, List.nil_append, skipNone (c := '\x7d') _ rfl]
    | cons member members =>
      obtain ⟨name, value⟩ := member
      have read := readsMembers reads fuel rest (by omega)
      have starts : ∃ cs, (writeMembers (((name, value) :: members).map fun member =>
          (member.1.map Piece.char, member.2))).map some ++ some '\x7d' :: rest = some '"' :: cs := by
        cases members with
        | nil => exact ⟨_, rfl⟩
        | cons second members => exact ⟨_, by rw [List.map_cons, List.map_cons, writeMembersCons]; rfl⟩
      obtain ⟨cs, starts⟩ := starts
      rw [starts] at read ⊢
      simp only [skipNone (c := '"') _ rfl]
      change (members? fuel (some '"' :: cs)).map _ = _
      rw [read]
      rfl

theorem readsText (text : String) : Reads (.ofText text) := readsString text.toList

theorem readsFields {fields : List (String × Json)} (reads : ∀ field ∈ fields, Reads field.2) :
    Reads (.ofFields fields) := by
  have spelled : ∀ member ∈ fields.map fun field : String × Json => (field.1.toList, field.2), Reads member.2 := by
    intro member mem
    obtain ⟨field, among, rfl⟩ := List.mem_map.mp mem
    exact reads field among
  have object := readsObject spelled
  rw [List.map_map] at object
  exact object

theorem readsTexts (fields : List (String × String)) :
    Reads (.ofFields (fields.map fun field => (field.1, .ofText field.2))) := by
  apply readsFields
  intro field mem
  obtain ⟨named, _, rfl⟩ := List.mem_map.mp mem
  exact readsText named.2

theorem ofToBytes {value : Json} (reads : Reads value) : ofBytes? value.toBytes = some value := by
  have read := reads.reading (2 * value.write.length + 2) [] (by omega)
  rw [List.append_nil] at read
  simp only [ofBytes?, toBytes, compact, Utf8.charsOfText, String.toList_ofList, read?, List.length_map, read,
    skipBlanks, List.dropWhile_nil, if_true]

theorem charsOfText (cs : List Char) : chars? (cs.map .char) = some cs := by
  induction cs with
  | nil => rfl
  | cons c cs ih => simp only [List.map_cons, chars?, ih, Option.map_some]

theorem textOfText (text : String) : (ofText text).text? = some text := by
  simp only [ofText, text?, charsOfText, Option.map_some, String.ofList_toList]

theorem fieldsOfFields (names : List String) (fields : List (String × Json)) :
    (ofFields fields).fields? names = names.mapM fun name =>
      match fields.filter (·.1 == name) with
      | [] => some none
      | [(_, value)] => some (some value)
      | _ => none := by
  have members : (fields.map fun field : String × Json => (field.1.toList.map Piece.char, field.2)).mapM
      (fun member => (chars? member.1).map fun cs => (String.ofList cs, member.2)) = some fields := by
    induction fields with
    | nil => rfl
    | cons field fields ih =>
      simp only [List.map_cons, List.mapM_cons, charsOfText, ih, Option.map_some, String.ofList_toList]
      rfl
  simp only [ofFields, fields?]
  rw [members]
  rfl

theorem listOfArray {β : Type} {read : Json → Option β} {write : β → Json} (readsBack : ∀ x, read (write x) = some x)
    (xs : List β) : list? read (.array (xs.map write)) = some xs := by
  rw [list?]
  induction xs with
  | nil => rfl
  | cons x xs ih =>
    rw [List.map_cons, List.mapM_cons, readsBack, ih]
    rfl

theorem readsRecords {β : Type} {write : β → Json} (reads : ∀ x, Reads (write x)) (xs : List β) :
    Reads (.array (xs.map write)) := by
  apply readsArray
  intro item mem
  obtain ⟨x, _, rfl⟩ := List.mem_map.mp mem
  exact reads x

end Json

theorem Artist.reads (a : Artist) : Json.Reads a.toJson := Json.readsTexts [("ID", a.id), ("Name", a.name)]

theorem Artist.ofToJson (a : Artist) : Artist.ofJson? a.toJson = some a := by
  have fields : a.toJson.fields? ["ID", "Name"] = some [some (.ofText a.id), some (.ofText a.name)] :=
    Json.fieldsOfFields _ _
  simp only [ofJson?, fields, Option.bind_eq_bind, Option.bind_some, Json.textOfText]
  rfl

theorem Move.reads (m : Move) : Json.Reads m.toJson := Json.readsTexts [("ID", m.id), ("Description", m.description)]

theorem Move.ofToJson (m : Move) : Move.ofJson? m.toJson = some m := by
  have fields : m.toJson.fields? ["ID", "Description"] = some [some (.ofText m.id), some (.ofText m.description)] :=
    Json.fieldsOfFields _ _
  simp only [ofJson?, fields, Option.bind_eq_bind, Option.bind_some, Json.textOfText]
  rfl

theorem NewArtist.reads (a : NewArtist) : Json.Reads a.toJson := Json.readsTexts [("Name", a.name)]

theorem NewArtist.ofToJson (a : NewArtist) : NewArtist.ofJson? a.toJson = some a := by
  have fields : a.toJson.fields? ["Name"] = some [some (.ofText a.name)] := Json.fieldsOfFields _ _
  simp only [ofJson?, fields, Option.bind_eq_bind, Option.bind_some, Json.textOfText]
  rfl

theorem NewMove.reads (m : NewMove) : Json.Reads m.toJson := Json.readsTexts [("Description", m.description)]

theorem NewMove.ofToJson (m : NewMove) : NewMove.ofJson? m.toJson = some m := by
  have fields : m.toJson.fields? ["Description"] = some [some (.ofText m.description)] := Json.fieldsOfFields _ _
  simp only [ofJson?, fields, Option.bind_eq_bind, Option.bind_some, Json.textOfText]
  rfl

end TurtleBoard
