import TurtleBoard.Config.Reader
import TurtleBoard.Proofs.JsonFields
import TurtleBoard.Proofs.JsonGrammar

/-! What a config file makes of the settings. Each field is read on its own from the member of its name, and where one
member is at fault the whole file counts for nothing; the order of the members, other members and blanks are no matter.
A name that is no text is at fault even where it names no field, key bindings may come by position, and numbers with a
fraction are off by a last place now and then. -/
namespace TurtleBoard

namespace Utf8

theorem charsEncoded {bytes : ByteArray} {text : List Char} (i : Nat) (read : charsFrom bytes i = text.map some) :
    bytes.extract i bytes.size = text.utf8Encode := by
  induction text generalizing i with
  | nil =>
    rw [charsFrom] at read
    split at read
    · split at read <;> contradiction
    · rename_i ended
      rw [List.utf8Encode_nil, ByteArray.extract_eq_empty_iff]
      omega
  | cons c text ih =>
    rw [charsFrom] at read
    split at read
    · split at read
      · rename_i d decoded
        obtain ⟨first, later⟩ := List.cons.inj read
        cases first
        have size := ByteArray.le_size_of_utf8DecodeChar?_eq_some decoded
        rw [ByteArray.utf8DecodeChar?_eq_utf8DecodeChar?_extract] at decoded
        have here := String.toByteArray_utf8EncodeChar_of_utf8DecodeChar?_eq_some decoded
        have front : (bytes.extract i bytes.size).extract 0 c.utf8Size = bytes.extract i (i + c.utf8Size) := by
          rw [ByteArray.extract_extract, Nat.add_zero, Nat.min_eq_left size]
        rw [List.utf8Encode_cons, List.utf8Encode_singleton, ← ih _ later, here, front]
        exact ByteArray.extract_eq_extract_append_extract _ (Nat.le_add_right _ _) size
      · exact nomatch (List.cons.inj read).1
    · contradiction

theorem textIff {bytes : ByteArray} {text : String} : text? bytes = some text ↔ bytes = text.toUTF8 := by
  rw [text?, Option.map_eq_some_iff]
  constructor
  · rintro ⟨cs, read, rfl⟩
    have chars : chars bytes = cs.map some := by
      have each := mapMIff.mp read
      rw [← List.forall₂_eq_eq_eq, List.forall₂_map_right_iff]
      exact each
    have whole := charsEncoded 0 chars
    rw [ByteArray.extract_zero_size] at whole
    rw [whole, String.toUTF8_eq_toByteArray, String.toByteArray_ofList]
  · rintro rfl
    refine ⟨text.toList, ?_, String.ofList_toList⟩
    rw [charsOfText, mapMIff, List.forall₂_map_left_iff]
    exact List.forall₂_same.mpr fun _ _ => rfl

end Utf8

namespace KeyBindings
open Json

def fields : List (String × (Json → Prop)) :=
  [("accelerate_hold", Fits IsText), ("accelerate_latch", Fits IsText), ("quit", Fits IsText)]

inductive Told : Json → KeyBindings → Prop where
  | object {members : List (List Piece × Json)} {keys : KeyBindings}
      (texts : ∀ member ∈ members, (chars? member.1).isSome = true)
      (hold : Field members "accelerate_hold" IsText ({} : KeyBindings).accelerateHold keys.accelerateHold)
      (latch : Field members "accelerate_latch" IsText ({} : KeyBindings).accelerateLatch keys.accelerateLatch)
      (quit : Field members "quit" IsText ({} : KeyBindings).quit keys.quit) : Told (.object members) keys
  | array {items : List Json} {keys : KeyBindings} (few : items.length ≤ 3)
      (hold : Settles IsText ({} : KeyBindings).accelerateHold items[0]? keys.accelerateHold)
      (latch : Settles IsText ({} : KeyBindings).accelerateLatch items[1]? keys.accelerateLatch)
      (quit : Settles IsText ({} : KeyBindings).quit items[2]? keys.quit) : Told (.array items) keys

theorem readIff {hold latch quit : Option Json} {keys : KeyBindings} :
    (do return {
          accelerateHold := ← orDefault text? ({} : KeyBindings).accelerateHold hold
          accelerateLatch := ← orDefault text? ({} : KeyBindings).accelerateLatch latch
          quit := ← orDefault text? ({} : KeyBindings).quit quit } : Option KeyBindings) = some keys ↔
      Settles IsText ({} : KeyBindings).accelerateHold hold keys.accelerateHold ∧
        Settles IsText ({} : KeyBindings).accelerateLatch latch keys.accelerateLatch ∧
          Settles IsText ({} : KeyBindings).quit quit keys.quit := by
  simp only [Option.bind_eq_bind, Option.bind_eq_some_iff, Option.pure_def, Option.some.injEq, settlesIff textIff]
  constructor
  · rintro ⟨_, first, _, second, _, third, rfl⟩
    exact ⟨first, second, third⟩
  · rintro ⟨first, second, third⟩
    exact ⟨_, first, _, second, _, third, rfl⟩

theorem fieldsArray {items : List Json} (few : items.length ≤ 3) :
    (Json.array items).fields? fieldNames = some [items[0]?, items[1]?, items[2]?] := by
  match items, few with
  | [], _ | [_], _ | [_, _], _ | [_, _, _], _ => rfl

theorem ofJsonIff {v : Json} {keys : KeyBindings} : ofJson? v = some keys ↔ Told v keys := by
  rw [ofJson?, Option.bind_eq_bind, Option.bind_eq_some_iff]
  cases v with
  | object members =>
    simp only [fieldsIff]
    constructor
    · rintro ⟨_, ⟨texts, single, rfl⟩, read⟩
      obtain ⟨hold, latch, quit⟩ := readIff.mp read
      simp only [fieldNames, List.forall_mem_cons] at single
      exact .object texts ⟨single.1, hold⟩ ⟨single.2.1, latch⟩ ⟨single.2.2.1, quit⟩
    · rintro ⟨texts, hold, latch, quit⟩
      refine ⟨_, ⟨texts, ?_, rfl⟩, readIff.mpr ⟨hold.settles, latch.settles, quit.settles⟩⟩
      simp only [fieldNames, List.forall_mem_cons]
      exact ⟨hold.single, latch.single, quit.single, nofun⟩
  | array items =>
    constructor
    · rintro ⟨values, found, read⟩
      have few : items.length ≤ 3 := by
        by_contra many
        have none : (Json.array items).fields? fieldNames = none := if_neg many
        rw [none] at found
        contradiction
      rw [fieldsArray few] at found
      cases found
      obtain ⟨hold, latch, quit⟩ := readIff.mp read
      exact .array few hold latch quit
    · rintro (_ | ⟨few, hold, latch, quit⟩)
      exact ⟨_, fieldsArray few, readIff.mpr ⟨hold, latch, quit⟩⟩
  | null | bool | number | string =>
    constructor
    · rintro ⟨_, found, _⟩
      contradiction
    · exact nofun

theorem Told.faultless {members : List (List Piece × Json)} {keys : KeyBindings} (told : Told (.object members) keys) :
    Faultless fields members := by
  obtain ⟨texts, hold, latch, quit⟩ := told
  refine ⟨texts, ?_, ?_⟩
  · simp only [fields, List.forall_mem_cons]
    exact ⟨hold.single, latch.single, quit.single, nofun⟩
  · simp only [fields, List.forall_mem_cons]
    exact ⟨hold.accepted, latch.accepted, quit.accepted, nofun⟩

end KeyBindings

namespace Config
open Json

def fields : List (String × (Json → Prop)) := [
  ("first_step_delay_ms", Fits (IsNat Number.wordLimit)), ("step_delay_ms", Fits (IsNat Number.wordLimit)),
  ("bubble_ttl_ms", Fits (IsNat Number.wordLimit)), ("poll_interval_ms", Fits (IsNat Number.wordLimit)),
  ("frame_interval_ms", Fits (IsNat Number.wordLimit)), ("request_timeout_ms", Fits (IsNat Number.wordLimit)),
  ("steps_in_each_direction", Fits (IsNat 4294967296)), ("spawn_fraction", Fits IsFloat),
  ("walk_frame_distance", Fits IsFloat), ("walk_frames", Fits (IsNat 4294967296)),
  ("walk_frame_size", Fits (IsInt 2147483648)), ("key_bindings", Fits KeyBindings.Told)]

structure Told (members : List (List Piece × Json)) (c : Config) : Prop where
  texts : ∀ member ∈ members, (chars? member.1).isSome = true
  firstStepDelayMs : Field members "first_step_delay_ms" (IsNat Number.wordLimit) ({} : Config).firstStepDelayMs
    c.firstStepDelayMs
  stepDelayMs : Field members "step_delay_ms" (IsNat Number.wordLimit) ({} : Config).stepDelayMs c.stepDelayMs
  bubbleTtlMs : Field members "bubble_ttl_ms" (IsNat Number.wordLimit) ({} : Config).bubbleTtlMs c.bubbleTtlMs
  pollIntervalMs : Field members "poll_interval_ms" (IsNat Number.wordLimit) ({} : Config).pollIntervalMs
    c.pollIntervalMs
  frameIntervalMs : Field members "frame_interval_ms" (IsNat Number.wordLimit) ({} : Config).frameIntervalMs
    c.frameIntervalMs
  requestTimeoutMs : Field members "request_timeout_ms" (IsNat Number.wordLimit) ({} : Config).requestTimeoutMs
    c.requestTimeoutMs
  stepsInEachDirection : Field members "steps_in_each_direction" (IsNat 4294967296)
    ({} : Config).stepsInEachDirection c.stepsInEachDirection
  spawnFraction : Field members "spawn_fraction" IsFloat ({} : Config).spawnFraction c.spawnFraction
  walkFrameDistance : Field members "walk_frame_distance" IsFloat ({} : Config).walkFrameDistance c.walkFrameDistance
  walkFrames : Field members "walk_frames" (IsNat 4294967296) ({} : Config).walkFrames c.walkFrames
  walkFrameSize : Field members "walk_frame_size" (IsInt 2147483648) ({} : Config).walkFrameSize c.walkFrameSize
  keyBindings : Field members "key_bindings" KeyBindings.Told ({} : Config).keyBindings c.keyBindings

theorem ofJsonIff {members : List (List Piece × Json)} {c : Config} :
    ofJson? (.object members) = some c ↔ Told members c := by
  rw [ofJson?, Option.bind_eq_bind, Option.bind_eq_some_iff]
  simp only [fieldsIff]
  constructor
  · rintro ⟨_, ⟨texts, single, rfl⟩, read⟩
    simp only [fieldNames, List.forall_mem_cons] at single
    simp only [fieldNames, List.map_cons, List.map_nil, Option.bind_eq_bind, Option.bind_eq_some_iff, Option.pure_def,
      Option.some.injEq, millis?, count?, settlesIff natIff, settlesIff intIff, settlesIff floatIff,
      settlesIff KeyBindings.ofJsonIff] at read
    obtain ⟨s₁, s₂, s₃, s₄, s₅, s₆, s₇, s₈, s₉, s₁₀, s₁₁, s₁₂, -⟩ := single
    obtain ⟨_, r₁, _, r₂, _, r₃, _, r₄, _, r₅, _, r₆, _, r₇, _, r₈, _, r₉, _, r₁₀, _, r₁₁, _, r₁₂, rfl⟩ := read
    exact ⟨texts, ⟨s₁, r₁⟩, ⟨s₂, r₂⟩, ⟨s₃, r₃⟩, ⟨s₄, r₄⟩, ⟨s₅, r₅⟩, ⟨s₆, r₆⟩, ⟨s₇, r₇⟩, ⟨s₈, r₈⟩, ⟨s₉, r₉⟩, ⟨s₁₀, r₁₀⟩,
      ⟨s₁₁, r₁₁⟩, ⟨s₁₂, r₁₂⟩⟩
  · rintro ⟨texts, f₁, f₂, f₃, f₄, f₅, f₆, f₇, f₈, f₉, f₁₀, f₁₁, f₁₂⟩
    refine ⟨_, ⟨texts, ?_, rfl⟩, ?_⟩
    · simp only [fieldNames, List.forall_mem_cons]
      exact ⟨f₁.single, f₂.single, f₃.single, f₄.single, f₅.single, f₆.single, f₇.single, f₈.single, f₉.single,
        f₁₀.single, f₁₁.single, f₁₂.single, nofun⟩
    · simp only [fieldNames, List.map_cons, List.map_nil, Option.bind_eq_bind, Option.bind_eq_some_iff,
        Option.pure_def, Option.some.injEq, millis?, count?, settlesIff natIff, settlesIff intIff, settlesIff floatIff,
        settlesIff KeyBindings.ofJsonIff]
      exact ⟨_, f₁.settles, _, f₂.settles, _, f₃.settles, _, f₄.settles, _, f₅.settles, _, f₆.settles, _, f₇.settles,
        _, f₈.settles, _, f₉.settles, _, f₁₀.settles, _, f₁₁.settles, _, f₁₂.settles, rfl⟩

theorem toldIff {members : List (List Piece × Json)} : (∃ c, Told members c) ↔ Faultless fields members := by
  constructor
  · rintro ⟨c, texts, f₁, f₂, f₃, f₄, f₅, f₆, f₇, f₈, f₉, f₁₀, f₁₁, f₁₂⟩
    refine ⟨texts, ?_, ?_⟩
    · simp only [fields, List.forall_mem_cons]
      exact ⟨f₁.single, f₂.single, f₃.single, f₄.single, f₅.single, f₆.single, f₇.single, f₈.single, f₉.single,
        f₁₀.single, f₁₁.single, f₁₂.single, nofun⟩
    · simp only [fields, List.forall_mem_cons]
      exact ⟨f₁.accepted, f₂.accepted, f₃.accepted, f₄.accepted, f₅.accepted, f₆.accepted, f₇.accepted, f₈.accepted,
        f₉.accepted, f₁₀.accepted, f₁₁.accepted, f₁₂.accepted, nofun⟩
  · rintro ⟨texts, single, accepted⟩
    simp only [fields, List.forall_mem_cons] at single accepted
    obtain ⟨s₁, s₂, s₃, s₄, s₅, s₆, s₇, s₈, s₉, s₁₀, s₁₁, s₁₂, -⟩ := single
    obtain ⟨a₁, a₂, a₃, a₄, a₅, a₆, a₇, a₈, a₉, a₁₀, a₁₁, a₁₂, -⟩ := accepted
    obtain ⟨x₁, f₁⟩ := fieldOf s₁ a₁
    obtain ⟨x₂, f₂⟩ := fieldOf s₂ a₂
    obtain ⟨x₃, f₃⟩ := fieldOf s₃ a₃
    obtain ⟨x₄, f₄⟩ := fieldOf s₄ a₄
    obtain ⟨x₅, f₅⟩ := fieldOf s₅ a₅
    obtain ⟨x₆, f₆⟩ := fieldOf s₆ a₆
    obtain ⟨x₇, f₇⟩ := fieldOf s₇ a₇
    obtain ⟨x₈, f₈⟩ := fieldOf s₈ a₈
    obtain ⟨x₉, f₉⟩ := fieldOf s₉ a₉
    obtain ⟨x₁₀, f₁₀⟩ := fieldOf s₁₀ a₁₀
    obtain ⟨x₁₁, f₁₁⟩ := fieldOf s₁₁ a₁₁
    obtain ⟨x₁₂, f₁₂⟩ := fieldOf s₁₂ a₁₂
    exact ⟨⟨x₁, x₂, x₃, x₄, x₅, x₆, x₇, x₈, x₉, x₁₀, x₁₁, x₁₂⟩, texts, f₁, f₂, f₃, f₄, f₅, f₆, f₇, f₈, f₉, f₁₀, f₁₁,
      f₁₂⟩

inductive Fault (members : List (List Piece × Json)) : Prop where
  | own (fault : Json.Fault fields members)
  | keys {keys : List (List Piece × Json)} (given : .object keys ∈ valuesOf "key_bindings" members)
      (fault : Json.Fault KeyBindings.fields keys)

theorem faultIff {members : List (List Piece × Json)} : Fault members ↔ ¬∃ c, Told members c := by
  constructor
  · rintro fault told
    have faultless := toldIff.mp told
    cases fault with
    | own fault => exact faultlessIff.mp faultless fault
    | keys given fault =>
      have known : ("key_bindings", Fits KeyBindings.Told) ∈ fields := by simp [fields]
      obtain ⟨keys, told⟩ := faultless.accepted _ known _ given
      exact faultlessIff.mp told.faultless fault
  · intro untold
    by_contra sound
    exact untold (toldIff.mpr (faultlessIff.mpr fun fault => sound (.own fault)))

theorem Told.replace {before after : List (List Piece × Json)} {pieces : List Piece} {v w : Json} {c : Config}
    (named : chars? pieces = some "key_bindings".toList)
    (same : ∀ keys, KeyBindings.Told v keys → KeyBindings.Told w keys)
    (told : Told (before ++ (pieces, v) :: after) c) : Told (before ++ (pieces, w) :: after) c := by
  have other {name : String} (apart : "key_bindings" ≠ name) : chars? pieces ≠ some name.toList := by
    rw [named, Ne, Option.some_inj, String.toList_inj]
    exact apart
  have texts : ∀ member ∈ before ++ (pieces, w) :: after, (chars? member.1).isSome = true := by
    have all := told.texts
    simp only [List.forall_mem_append, List.forall_mem_cons] at all ⊢
    exact all
  exact {
    texts := texts
    firstStepDelayMs := told.firstStepDelayMs.other (other (by decide))
    stepDelayMs := told.stepDelayMs.other (other (by decide))
    bubbleTtlMs := told.bubbleTtlMs.other (other (by decide))
    pollIntervalMs := told.pollIntervalMs.other (other (by decide))
    frameIntervalMs := told.frameIntervalMs.other (other (by decide))
    requestTimeoutMs := told.requestTimeoutMs.other (other (by decide))
    stepsInEachDirection := told.stepsInEachDirection.other (other (by decide))
    spawnFraction := told.spawnFraction.other (other (by decide))
    walkFrameDistance := told.walkFrameDistance.other (other (by decide))
    walkFrames := told.walkFrames.other (other (by decide))
    walkFrameSize := told.walkFrameSize.other (other (by decide))
    keyBindings := told.keyBindings.own named same }

inductive Alike : List (List Piece × Json) → List (List Piece × Json) → Prop where
  | members {members others : List (List Piece × Json)} (rearranged : Rearranged fieldNames members others) :
      Alike members others
  | keys {before after keys others : List (List Piece × Json)} {pieces : List Piece}
      (named : chars? pieces = some "key_bindings".toList)
      (rearranged : Rearranged KeyBindings.fieldNames keys others) :
      Alike (before ++ (pieces, .object keys) :: after) (before ++ (pieces, .object others) :: after)

theorem ofJsonAlike {members others : List (List Piece × Json)} (alike : Alike members others) :
    ofJson? (.object others) = ofJson? (.object members) := by
  cases alike with
  | members rearranged => rw [ofJson?, ofJson?, fieldsRearranged rearranged]
  | @keys _ _ bindings others _ named rearranged =>
    have same (keys : KeyBindings) :
        KeyBindings.Told (.object others) keys ↔ KeyBindings.Told (.object bindings) keys := by
      rw [← KeyBindings.ofJsonIff, ← KeyBindings.ofJsonIff, KeyBindings.ofJson?, KeyBindings.ofJson?,
        fieldsRearranged rearranged]
    apply Option.ext
    intro c
    rw [ofJsonIff, ofJsonIff]
    exact ⟨Told.replace named fun keys => (same keys).mp, Told.replace named fun keys => (same keys).mpr⟩

def Spells (text : List Char) (v : Json) : Prop := Parses v (tokens (text.map some))

theorem loadText (text : String) :
    load (some text.toUTF8) = ((read? (text.toList.map some)).bind ofJson?).getD {} := by
  have read : Utf8.text? text.toUTF8 = some text := Utf8.textIff.mpr rfl
  simp only [load, Option.bind_some, ofBytes?, read, Option.bind_eq_bind]

theorem loadSpelled {text : String} {v : Json} (spells : Spells text.toList v) :
    load (some text.toUTF8) = (ofJson? v).getD {} := by
  rw [loadText, readIff.mpr spells, Option.bind_some]

structure Loading (file : Option ByteArray) : Prop where
  absent : file = none → load file = {}
  notText : ∀ bytes, file = some bytes → (∀ text : String, bytes ≠ text.toUTF8) → load file = {}
  notValue : ∀ text : String, file = some text.toUTF8 → (∀ v, ¬Spells text.toList v) → load file = {}
  object : ∀ (text : String) members, file = some text.toUTF8 → Spells text.toList (.object members) →
    (Fault members → load file = {}) ∧ (∀ c, Told members c → load file = c) ∧
      (¬Fault members → ∃ c, Told members c)
  alike : ∀ (text other : String) members others, file = some text.toUTF8 → Spells text.toList (.object members) →
    Spells other.toList (.object others) → Alike members others → load (some other.toUTF8) = load file
  blanks : ∀ before blanks after : List Char, file = some (String.ofList (before ++ after)).toUTF8 →
    Gap (before.map some) (after.map some) → (∀ c ∈ blanks, isBlank (some c) = true) →
      load (some (String.ofList (before ++ blanks ++ after)).toUTF8) = load file

theorem loadsWholly (file : Option ByteArray) : Loading file where
  absent := by
    rintro rfl
    rfl
  notText := by
    rintro bytes rfl none
    have unread : Utf8.text? bytes = .none := by
      rw [Option.eq_none_iff_forall_ne_some]
      intro text read
      exact none text (Utf8.textIff.mp read)
    simp only [load, Option.bind_some, ofBytes?, unread]
    rfl
  notValue := by
    rintro text rfl none
    have unread : read? (text.toList.map some) = .none := by
      rw [Option.eq_none_iff_forall_ne_some]
      intro v read
      exact none v (readIff.mp read)
    rw [loadText, unread]
    rfl
  object := by
    rintro text members rfl spells
    rw [loadSpelled spells]
    refine ⟨?_, ?_, ?_⟩
    · intro fault
      have untold : ofJson? (.object members) = none := by
        rw [Option.eq_none_iff_forall_ne_some]
        intro c read
        exact faultIff.mp fault ⟨c, ofJsonIff.mp read⟩
      rw [untold]
      rfl
    · intro c told
      rw [ofJsonIff.mpr told]
      rfl
    · intro sound
      by_contra untold
      exact sound (faultIff.mpr untold)
  alike := by
    rintro text other members others rfl spells spells' alike
    rw [loadSpelled spells, loadSpelled spells', ofJsonAlike alike]
  blanks := by
    rintro before blanks after rfl gap blank
    have all : ∀ c ∈ blanks.map some, isBlank c = true := by
      intro c mem
      obtain ⟨d, inside, rfl⟩ := List.mem_map.mp mem
      exact blank d inside
    have same : tokens ((before ++ blanks ++ after).map some) = tokens ((before ++ after).map some) := by
      rw [List.map_append, List.map_append, List.map_append, tokensGap gap all]
    have read : read? ((before ++ blanks ++ after).map some) = read? ((before ++ after).map some) := by
      apply Option.ext
      intro v
      rw [readIff, readIff, same]
    rw [loadText, loadText, String.toList_ofList, String.toList_ofList, read]

/- A member that names no field, with a name that is not text either; key bindings in an array; and a fraction just
below four. -/
theorem memberWithoutName :
    (load (some "\x7b\"walk_frames\": 3\x7d".toUTF8)).walkFrames = 3 ∧
      (load (some "\x7b\"walk_frames\": 3, \"\\ud800\": 1\x7d".toUTF8)).walkFrames = 5 ∧
      (load (some "\x7b\"key_bindings\": [\"x\"]\x7d".toUTF8)).keyBindings.accelerateHold = "x" ∧
      (load (some "\x7b\"spawn_fraction\": 3.9999999999999996\x7d".toUTF8)).spawnFraction.toBits =
        0x4010000000000000 := by
  decide +kernel

end Config
end TurtleBoard
