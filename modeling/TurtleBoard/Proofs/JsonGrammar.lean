import TurtleBoard.Proofs.JsonSpelling

/-! The grammar of JSON over the tokens of a text. The reader accepts exactly the tokens of one value, and it has fuel
for all of them; so texts with the same tokens are the same to it. -/
namespace TurtleBoard.Json
open Number (Digits IsDigit)

mutual

inductive Parses : Json → List Token → Prop where
  | null : Parses .null [.bare ("null".toList.map some)]
  | yes : Parses (.bool true) [.bare ("true".toList.map some)]
  | no : Parses (.bool false) [.bare ("false".toList.map some)]
  | number {numeral : Numeral} {raw : List Char} (written : Written numeral raw) :
      Parses (.number numeral) [.bare (raw.map some)]
  | string {pieces : List Piece} {raw : List (Option Char)} (quoted : Quoted pieces raw) :
      Parses (.string pieces) [.quoted raw]
  | noItems : Parses (.array []) [.mark (some '['), .mark (some ']')]
  | array {items : List Json} {ts : List Token} (parts : ParsesItems items ts) :
      Parses (.array items) (.mark (some '[') :: ts ++ [.mark (some ']')])
  | noMembers : Parses (.object []) [.mark (some '\x7b'), .mark (some '\x7d')]
  | object {members : List (List Piece × Json)} {ts : List Token} (parts : ParsesMembers members ts) :
      Parses (.object members) (.mark (some '\x7b') :: ts ++ [.mark (some '\x7d')])

inductive ParsesItems : List Json → List Token → Prop where
  | last {item : Json} {ts : List Token} (parses : Parses item ts) : ParsesItems [item] ts
  | more {item : Json} {items : List Json} {ts later : List Token} (parses : Parses item ts)
      (rest : ParsesItems items later) : ParsesItems (item :: items) (ts ++ .mark (some ',') :: later)

inductive ParsesMembers : List (List Piece × Json) → List Token → Prop where
  | last {name : List Piece} {value : Json} {raw : List (Option Char)} {ts : List Token} (quoted : Quoted name raw)
      (parses : Parses value ts) : ParsesMembers [(name, value)] (.quoted raw :: .mark (some ':') :: ts)
  | more {name : List Piece} {value : Json} {members : List (List Piece × Json)} {raw : List (Option Char)}
      {ts later : List Token} (quoted : Quoted name raw) (parses : Parses value ts)
      (rest : ParsesMembers members later) :
      ParsesMembers ((name, value) :: members) (.quoted raw :: .mark (some ':') :: ts ++ .mark (some ',') :: later)

end

theorem literalIff {word : String} {cs rest : List (Option Char)} :
    literal? word cs = some rest ↔ cs = word.toList.map some ++ rest := by
  have length : word.length = (word.toList.map some).length := by rw [List.length_map, String.length_toList]
  rw [literal?, length]
  constructor
  · intro found
    split at found
    · rename_i begins
      obtain ⟨left, rfl⟩ := begins
      rw [List.drop_left] at found
      cases found
      rfl
    · contradiction
  · rintro rfl
    rw [if_pos (List.prefix_append _ _), List.drop_left]

theorem endsBlank {cs : List (Option Char)} (ended : skipBlanks cs = []) : Ends cs := by
  rintro c first
  have blank := List.dropWhile_eq_nil_iff.mp ended c (List.mem_of_head? first)
  exact blankNotBare blank

theorem markedOf {cs rest : List (Option Char)} {c : Option Char} (mark : isMark c = true)
    (skip : skipBlanks cs = c :: rest) : Ends cs ∧ tokens cs = .mark c :: tokens rest := by
  constructor
  · intro d first
    cases blank : isBlank d with
    | true => exact blankNotBare blank
    | false =>
      cases cs with
      | nil => contradiction
      | cons e cs =>
        cases first
        rw [skipBlanks, List.dropWhile_cons_of_neg (by rw [blank]; exact Bool.false_ne_true)] at skip
        cases skip
        exact markNotBare mark
  · rw [← tokensSkip, skip, tokensMark mark]

/- What the three readers find with some fuel is in the grammar. -/
structure Sound (fuel : Nat) : Prop where
  value : ∀ cs v rest, value? fuel cs = some (v, rest) → Ends rest →
    ∃ ts, Parses v ts ∧ tokens cs = ts ++ tokens rest
  items : ∀ cs items rest, items? fuel cs = some (items, rest) →
    ∃ ts, ParsesItems items ts ∧ tokens cs = ts ++ .mark (some ']') :: tokens rest
  members : ∀ cs members rest, members? fuel cs = some (members, rest) →
    ∃ ts, ParsesMembers members ts ∧ tokens cs = ts ++ .mark (some '\x7d') :: tokens rest

theorem wordTokens {cs rest left : List (Option Char)} {c : Char} {word : String}
    (skip : skipBlanks cs = some c :: rest) (found : literal? word rest = some left) (ends : Ends left)
    (bare : ∀ d ∈ c :: word.toList, isBare (some d) = true) :
    tokens cs = .bare ((c :: word.toList).map some) :: tokens left := by
  rw [← tokensSkip, skip, literalIff.mp found]
  have all : ∀ d ∈ (c :: word.toList).map some, isBare d = true := by
    intro d mem
    obtain ⟨e, inside, rfl⟩ := List.mem_map.mp mem
    exact bare e inside
  exact tokensBare (List.cons_ne_nil _ _) all ends

theorem itemsSound {fuel : Nat} (sound : Sound fuel) {cs rest : List (Option Char)} {items : List Json}
    (read : items? (fuel + 1) cs = some (items, rest)) :
    ∃ ts, ParsesItems items ts ∧ tokens cs = ts ++ .mark (some ']') :: tokens rest := by
  rw [items?] at read
  split at read
  · contradiction
  · rename_i item after found
    split at read
    · rename_i later skip
      obtain ⟨⟨items, _⟩, behind, same⟩ := Option.map_eq_some_iff.mp read
      cases same
      obtain ⟨ends, comma⟩ := markedOf rfl skip
      obtain ⟨ts, parses, front⟩ := sound.value _ _ _ found ends
      obtain ⟨us, parts, back⟩ := sound.items _ _ _ behind
      refine ⟨_, .more parses parts, ?_⟩
      rw [front, comma, back, List.append_assoc, List.cons_append]
    · rename_i later skip
      cases read
      obtain ⟨ends, close⟩ := markedOf rfl skip
      obtain ⟨ts, parses, front⟩ := sound.value _ _ _ found ends
      exact ⟨ts, .last parses, by rw [front, close]⟩
    · contradiction

theorem membersSound {fuel : Nat} (sound : Sound fuel) {cs rest : List (Option Char)}
    {members : List (List Piece × Json)} (read : members? (fuel + 1) cs = some (members, rest)) :
    ∃ ts, ParsesMembers members ts ∧ tokens cs = ts ++ .mark (some '\x7d') :: tokens rest := by
  rw [members?] at read
  split at read
  · rename_i inside quote
    split at read
    · contradiction
    · rename_i name after named
      split at read
      · rename_i behind colon
        split at read
        · contradiction
        · rename_i value left found
          obtain ⟨raw, quoted, rfl⟩ := stringSound named
          have start : tokens cs = .quoted raw :: .mark (some ':') :: tokens behind := by
            rw [← tokensSkip, quote, tokensQuoted quoted, (markedOf rfl colon).2]
          split at read
          · rename_i later skip
            obtain ⟨⟨members, _⟩, further, same⟩ := Option.map_eq_some_iff.mp read
            cases same
            obtain ⟨ends, comma⟩ := markedOf rfl skip
            obtain ⟨ts, parses, front⟩ := sound.value _ _ _ found ends
            obtain ⟨us, parts, back⟩ := sound.members _ _ _ further
            refine ⟨_, .more quoted parses parts, ?_⟩
            rw [start, front, comma, back]
            simp only [List.cons_append, List.append_assoc]
          · rename_i later skip
            cases read
            obtain ⟨ends, close⟩ := markedOf rfl skip
            obtain ⟨ts, parses, front⟩ := sound.value _ _ _ found ends
            exact ⟨_, .last quoted parses, by rw [start, front, close]; rfl⟩
          · contradiction
      · contradiction
  · contradiction

theorem valueSound {fuel : Nat} (sound : Sound fuel) {cs rest : List (Option Char)} {v : Json}
    (read : value? (fuel + 1) cs = some (v, rest)) (ends : Ends rest) :
    ∃ ts, Parses v ts ∧ tokens cs = ts ++ tokens rest := by
  rw [value?] at read
  split at read
  · rename_i skip
    obtain ⟨_, found, same⟩ := Option.map_eq_some_iff.mp read
    cases same
    exact ⟨_, .null, wordTokens skip found ends (by decide)⟩
  · rename_i skip
    obtain ⟨_, found, same⟩ := Option.map_eq_some_iff.mp read
    cases same
    exact ⟨_, .yes, wordTokens skip found ends (by decide)⟩
  · rename_i skip
    obtain ⟨_, found, same⟩ := Option.map_eq_some_iff.mp read
    cases same
    exact ⟨_, .no, wordTokens skip found ends (by decide)⟩
  · rename_i skip
    obtain ⟨⟨pieces, _⟩, found, same⟩ := Option.map_eq_some_iff.mp read
    cases same
    obtain ⟨raw, quoted, rfl⟩ := stringSound found
    refine ⟨_, .string quoted, ?_⟩
    rw [← tokensSkip, skip, tokensQuoted quoted]
    rfl
  · rename_i inside skip
    have start : tokens cs = .mark (some '[') :: tokens inside := (markedOf rfl skip).2
    split at read
    · rename_i after close
      cases read
      exact ⟨_, .noItems, by rw [start, (markedOf rfl close).2]; rfl⟩
    · obtain ⟨⟨items, _⟩, found, same⟩ := Option.map_eq_some_iff.mp read
      cases same
      obtain ⟨ts, parts, front⟩ := sound.items _ _ _ found
      refine ⟨_, .array parts, ?_⟩
      rw [start, ← tokensSkip, front]
      simp only [List.cons_append, List.append_assoc, List.nil_append]
  · rename_i inside skip
    have start : tokens cs = .mark (some '\x7b') :: tokens inside := (markedOf rfl skip).2
    split at read
    · rename_i after close
      cases read
      exact ⟨_, .noMembers, by rw [start, (markedOf rfl close).2]; rfl⟩
    · obtain ⟨⟨members, _⟩, found, same⟩ := Option.map_eq_some_iff.mp read
      cases same
      obtain ⟨ts, parts, front⟩ := sound.members _ _ _ found
      refine ⟨_, .object parts, ?_⟩
      rw [start, ← tokensSkip, front]
      simp only [List.cons_append, List.append_assoc, List.nil_append]
  · obtain ⟨⟨numeral, _⟩, found, same⟩ := Option.map_eq_some_iff.mp read
    cases same
    obtain ⟨raw, written, split⟩ := numberSound found
    refine ⟨_, .number written, ?_⟩
    rw [← tokensSkip, split, tokensBare written.bare.1 written.bare.2 ends]
    rfl

theorem sound (fuel : Nat) : Sound fuel := by
  induction fuel with
  | zero => exact ⟨fun _ _ _ => nofun, fun _ _ _ => nofun, fun _ _ _ => nofun⟩
  | succ fuel ih =>
    exact ⟨fun _ _ _ => valueSound ih, fun _ _ _ => itemsSound ih, fun _ _ _ => membersSound ih⟩

theorem Parses.first {v : Json} {ts : List Token} (parses : Parses v ts) :
    ∃ t later, ts = t :: later ∧ t ≠ .mark (some ']') := by
  cases parses <;> exact ⟨_, _, rfl, by simp⟩

theorem ParsesItems.first {items : List Json} {ts : List Token} (parts : ParsesItems items ts) :
    ∃ t later, ts = t :: later ∧ t ≠ .mark (some ']') := by
  cases parts with
  | last parses => exact parses.first
  | more parses _ =>
    obtain ⟨t, later, rfl, other⟩ := parses.first
    exact ⟨t, _, rfl, other⟩

theorem ParsesMembers.first {members : List (List Piece × Json)} {ts : List Token}
    (parts : ParsesMembers members ts) : ∃ raw later, ts = .quoted raw :: later := by
  cases parts <;> exact ⟨_, _, rfl⟩

theorem notOpens {c : Char} (sign : c ≠ '-') (digit : c.isDigit = false) : ¬(c = '-' ∨ IsDigit c) := by
  rintro (same | opens)
  · exact sign same
  · exact Bool.false_ne_true (digit.symm.trans opens)

/- What is in the grammar is found, with fuel for twice its tokens. -/
structure Complete (fuel : Nat) : Prop where
  value : ∀ v ts cs later, Parses v ts → tokens cs = ts ++ later → 2 * ts.length ≤ fuel + 1 →
    ∃ rest, value? fuel cs = some (v, rest) ∧ tokens rest = later
  items : ∀ items ts cs later, ParsesItems items ts → tokens cs = ts ++ .mark (some ']') :: later →
    2 * ts.length ≤ fuel → ∃ rest, items? fuel cs = some (items, rest) ∧ tokens rest = later
  members : ∀ members ts cs later, ParsesMembers members ts → tokens cs = ts ++ .mark (some '\x7d') :: later →
    2 * ts.length ≤ fuel → ∃ rest, members? fuel cs = some (members, rest) ∧ tokens rest = later

section
variable {fuel : Nat} (complete : Complete fuel) {ts later : List Token} {cs : List (Option Char)}
include complete

theorem itemsComplete {items : List Json} (parts : ParsesItems items ts)
    (start : tokens cs = ts ++ .mark (some ']') :: later) (enough : 2 * ts.length ≤ fuel + 1) :
    ∃ rest, items? (fuel + 1) cs = some (items, rest) ∧ tokens rest = later := by
  cases parts with
  | last parses =>
    obtain ⟨after, found, close⟩ := complete.value _ _ _ _ parses start enough
    obtain ⟨rest, skip, behind⟩ := markOf close
    refine ⟨rest, ?_, behind⟩
    rw [items?, found]
    simp only [skip]
  | more parses parts =>
    rw [List.append_assoc, List.cons_append] at start
    rw [List.length_append, List.length_cons] at enough
    obtain ⟨after, found, comma⟩ := complete.value _ _ _ _ parses start (by omega)
    obtain ⟨inside, skip, next⟩ := markOf comma
    obtain ⟨rest, behind, last⟩ := complete.items _ _ _ _ parts next (by omega)
    refine ⟨rest, ?_, last⟩
    rw [items?, found]
    simp only [skip, behind, Option.map_some]

theorem membersComplete {members : List (List Piece × Json)} (parts : ParsesMembers members ts)
    (start : tokens cs = ts ++ .mark (some '\x7d') :: later) (enough : 2 * ts.length ≤ fuel + 1) :
    ∃ rest, members? (fuel + 1) cs = some (members, rest) ∧ tokens rest = later := by
  cases parts with
  | last quoted parses =>
    simp only [List.cons_append] at start
    simp only [List.length_cons] at enough
    obtain ⟨inside, quote, colon⟩ := quotedOf start
    obtain ⟨behind, skip, next⟩ := markOf colon
    obtain ⟨after, found, close⟩ := complete.value _ _ _ _ parses next (by omega)
    obtain ⟨rest, closed, last⟩ := markOf close
    refine ⟨rest, ?_, last⟩
    rw [members?, quote]
    simp only [stringQuoted quoted, skip, found, closed]
  | more quoted parses parts =>
    simp only [List.cons_append, List.append_assoc] at start
    simp only [List.cons_append, List.length_cons, List.length_append] at enough
    obtain ⟨inside, quote, colon⟩ := quotedOf start
    obtain ⟨behind, skip, next⟩ := markOf colon
    obtain ⟨after, found, comma⟩ := complete.value _ _ _ _ parses next (by omega)
    obtain ⟨left, more, further⟩ := markOf comma
    obtain ⟨rest, others, last⟩ := complete.members _ _ _ _ parts further (by omega)
    refine ⟨rest, ?_, last⟩
    rw [members?, quote]
    simp only [stringQuoted quoted, skip, found, more, others, Option.map_some]

theorem valueComplete {v : Json} (parses : Parses v ts) (start : tokens cs = ts ++ later)
    (enough : 2 * ts.length ≤ fuel + 2) : ∃ rest, value? (fuel + 1) cs = some (v, rest) ∧ tokens rest = later := by
  cases parses with
  | null | yes | no =>
    obtain ⟨rest, skip, _, last⟩ := bareOf start
    refine ⟨rest, ?_, last⟩
    rw [value?, skip]
    exact congrArg (Option.map _) (literalIff.mpr rfl)
  | number written =>
    obtain ⟨rest, skip, ends, last⟩ := bareOf start
    refine ⟨rest, ?_, last⟩
    obtain ⟨c, after, rfl, opens⟩ := written.first
    rw [value?, skip]
    split
    case h_7 =>
      rw [numberRead written ends]
      rfl
    -- What the other readers begin with is neither a sign nor a digit.
    all_goals
      rename_i same
      cases same
      exact absurd opens (notOpens (by decide) rfl)
  | string quoted =>
    obtain ⟨rest, skip, last⟩ := quotedOf start
    refine ⟨rest, ?_, last⟩
    rw [value?, skip]
    simp only [stringQuoted quoted, Option.map_some]
  | noItems =>
    obtain ⟨inside, skip, close⟩ := markOf start
    obtain ⟨rest, closed, last⟩ := markOf close
    refine ⟨rest, ?_, last⟩
    rw [value?, skip]
    simp only [closed]
  | array parts =>
    simp only [List.cons_append, List.append_assoc, List.nil_append] at start
    simp only [List.length_cons, List.length_append, List.cons_append] at enough
    obtain ⟨inside, skip, behind⟩ := markOf start
    rw [← tokensSkip] at behind
    obtain ⟨rest, found, last⟩ := complete.items _ _ _ _ parts behind (by omega)
    refine ⟨rest, ?_, last⟩
    rw [value?, skip]
    simp only
    split
    · rename_i closed
      obtain ⟨t, front, rfl, other⟩ := parts.first
      rw [tokensSkip, (markedOf rfl closed).2] at behind
      exact absurd (List.cons.inj behind).1.symm other
    · rw [found]
      rfl
  | noMembers =>
    obtain ⟨inside, skip, close⟩ := markOf start
    obtain ⟨rest, closed, last⟩ := markOf close
    refine ⟨rest, ?_, last⟩
    rw [value?, skip]
    simp only [closed]
  | object parts =>
    simp only [List.cons_append, List.append_assoc, List.nil_append] at start
    simp only [List.length_cons, List.length_append, List.cons_append] at enough
    obtain ⟨inside, skip, behind⟩ := markOf start
    rw [← tokensSkip] at behind
    obtain ⟨rest, found, last⟩ := complete.members _ _ _ _ parts behind (by omega)
    refine ⟨rest, ?_, last⟩
    rw [value?, skip]
    simp only
    split
    · rename_i closed
      obtain ⟨raw, front, rfl⟩ := parts.first
      rw [tokensSkip, (markedOf rfl closed).2] at behind
      exact nomatch (List.cons.inj behind).1
    · rw [found]
      rfl

end

theorem complete (fuel : Nat) : Complete fuel := by
  induction fuel with
  | zero =>
    refine ⟨?_, ?_, ?_⟩
    · intro _ _ _ _ parses _ enough
      obtain ⟨t, later, rfl, _⟩ := parses.first
      simp only [List.length_cons] at enough
      omega
    · intro _ _ _ _ parts _ enough
      obtain ⟨t, later, rfl, _⟩ := parts.first
      simp only [List.length_cons] at enough
      omega
    · intro _ _ _ _ parts _ enough
      obtain ⟨raw, later, rfl⟩ := parts.first
      simp only [List.length_cons] at enough
      omega
  | succ fuel ih =>
    exact ⟨fun _ _ _ _ => valueComplete ih, fun _ _ _ _ => itemsComplete ih, fun _ _ _ _ => membersComplete ih⟩

theorem readIff {cs : List (Option Char)} {v : Json} : read? cs = some v ↔ Parses v (tokens cs) := by
  rw [read?]
  constructor
  · intro read
    split at read
    · rename_i found
      split at read
      · rename_i ended
        cases read
        obtain ⟨ts, parses, split⟩ := (sound _).value _ _ _ found (endsBlank ended)
        have none : tokens _ = [] := (tokensSkip _).symm.trans (congrArg tokens ended)
        rw [none, List.append_nil] at split
        rwa [split]
      · contradiction
    · contradiction
  · intro parses
    have enough := tokensLength .between cs
    obtain ⟨rest, found, none⟩ := (complete (2 * cs.length + 2)).value v _ cs [] parses
      (List.append_nil _).symm (by rw [tokens]; omega)
    simp only [found, endedOf none, if_true]

end TurtleBoard.Json
