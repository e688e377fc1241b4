import TurtleBoard.Proofs.Grammar
import TurtleBoard.Proofs.RoundTrip
import TurtleBoard.Proofs.Store
import TurtleBoard.Proofs.Tokens

/-! The spelling of strings and numbers in JSON. A string is one token and so is a number, and the readers take exactly
what is spelled: a string up to its closing quote, and a number up to the end of its token. -/
namespace TurtleBoard.Json
open Number (Digits IsDigit)

inductive Quoted : List Piece → List (Option Char) → Prop where
  | close : Quoted [] [some '"']
  | char {c : Char} {pieces : List Piece} {raw : List (Option Char)} (visible : 0x20 ≤ c.toNat) (quote : c ≠ '"')
      (backslash : c ≠ '\\') (rest : Quoted pieces raw) : Quoted (.char c :: pieces) (some c :: raw)
  | stray {pieces : List Piece} {raw : List (Option Char)} (rest : Quoted pieces raw) :
      Quoted (.stray :: pieces) (none :: raw)
  | escape {c d : Char} {pieces : List Piece} {raw : List (Option Char)} (escape : escape? c = some d)
      (rest : Quoted pieces raw) : Quoted (.char d :: pieces) (some '\\' :: some c :: raw)
  | code {a b c d : Char} {code : Nat} {pieces : List Piece} {raw : List (Option Char)}
      (hex : hexCode? a b c d = some code) (rest : Quoted pieces raw) :
      Quoted (pieceOfCode code :: pieces) (some '\\' :: some 'u' :: some a :: some b :: some c :: some d :: raw)

inductive Sign : Bool → List Char → Prop where
  | plus : Sign false []
  | minus : Sign true ['-']

inductive Fraction : List Char → List Char → Prop where
  | absent : Fraction [] []
  | places {ds : List Char} (digits : Digits IsDigit ds) : Fraction ds ('.' :: ds)

inductive Exponent : Option (Bool × List Char) → List Char → Prop where
  | absent : Exponent none []
  | plain {letter : Char} {ds : List Char} (named : letter = 'e' ∨ letter = 'E') (digits : Digits IsDigit ds) :
      Exponent (some (false, ds)) (letter :: ds)
  | plus {letter : Char} {ds : List Char} (named : letter = 'e' ∨ letter = 'E') (digits : Digits IsDigit ds) :
      Exponent (some (false, ds)) (letter :: '+' :: ds)
  | minus {letter : Char} {ds : List Char} (named : letter = 'e' ∨ letter = 'E') (digits : Digits IsDigit ds) :
      Exponent (some (true, ds)) (letter :: '-' :: ds)

/- The spelling of a number. Before the point no zero comes first, unless it is alone. -/
inductive Written : Numeral → List Char → Prop where
  | parts {negative : Bool} {sign ds places fraction scale : List Char} {exponent : Option (Bool × List Char)}
      (signed : Sign negative sign) (whole : Digits IsDigit ds) (leading : ds.head? = some '0' → ds = ['0'])
      (point : Fraction places fraction) (scaled : Exponent exponent scale) :
      Written ⟨negative, ds, places, exponent⟩ (sign ++ ds ++ fraction ++ scale)

theorem insideNext {c : Option Char} {cs : List (Option Char)} (quote : c ≠ some '"') (backslash : c ≠ some '\\') :
    tokensFrom .inside (c :: cs) = (c :: (tokensFrom .inside cs).1, (tokensFrom .inside cs).2) := by
  simp only [tokensFrom, Place.next, quote, backslash, if_false]

theorem hexPlain {c : Char} (hex : Text.isHexDigit c = true) : some c ≠ some '"' ∧ some c ≠ some '\\' := by
  constructor <;>
  · rintro ⟨⟩
    contradiction

theorem insideQuoted {pieces : List Piece} {raw : List (Option Char)} (quoted : Quoted pieces raw)
    (rest : List (Option Char)) : tokensFrom .inside (raw ++ rest) = (raw, tokens rest) := by
  induction quoted with
  | close =>
    simp only [List.cons_append, List.nil_append, tokensFrom, Place.next, if_true, betweenNone]
  | char _ quote backslash _ ih =>
    rw [List.cons_append, insideNext (by simpa using quote) (by simpa using backslash), ih]
  | stray _ ih => rw [List.cons_append, insideNext (Option.some_ne_none _).symm (Option.some_ne_none _).symm, ih]
  | escape _ _ ih => simp [tokensFrom, Place.next, ih]
  | @code a b c d _ _ _ hex _ ih =>
    have digits : [a, b, c, d].all Text.isHexDigit = true := by
      by_contra other
      rw [hexCode?, if_neg other] at hex
      contradiction
    simp only [List.all_cons, List.all_nil, Bool.and_true, Bool.and_eq_true] at digits
    obtain ⟨first, second, third, fourth⟩ := digits
    have escaped (cs : List (Option Char)) : tokensFrom .inside (some '\\' :: some 'u' :: cs) =
        (some '\\' :: some 'u' :: (tokensFrom .inside cs).1, (tokensFrom .inside cs).2) := rfl
    simp only [List.cons_append, escaped, insideNext (hexPlain first).1 (hexPlain first).2,
      insideNext (hexPlain second).1 (hexPlain second).2, insideNext (hexPlain third).1 (hexPlain third).2,
      insideNext (hexPlain fourth).1 (hexPlain fourth).2, ih]

theorem tokensQuoted {pieces : List Piece} {raw : List (Option Char)} (quoted : Quoted pieces raw)
    (rest : List (Option Char)) : tokens (some '"' :: (raw ++ rest)) = .quoted raw :: tokens rest := by
  have next : Place.between.next (some '"') = .inside := rfl
  rw [tokens, tokensFrom, next, insideQuoted quoted]
  rfl

theorem stringHex {a b c d : Char} (cs : List (Option Char)) {code : Nat} (hex : hexCode? a b c d = some code) :
    string? (some '\\' :: some 'u' :: some a :: some b :: some c :: some d :: cs) =
      (string? cs).map (addPiece (pieceOfCode code)) := by
  rw [string?, hex]
  cases string? cs <;> rfl

theorem stringQuoted {pieces : List Piece} {raw : List (Option Char)} (quoted : Quoted pieces raw)
    (rest : List (Option Char)) : string? (raw ++ rest) = some (pieces, rest) := by
  induction quoted with
  | close => rfl
  | char visible quote backslash _ ih =>
    rw [List.cons_append, stringPlain _ quote backslash (not_lt.mpr visible), ih]
    rfl
  | stray _ ih =>
    rw [List.cons_append, string?, ih]
    rfl
  | escape escape _ ih =>
    rw [List.cons_append, List.cons_append, stringEscape _ escape, ih]
    rfl
  | code hex _ ih =>
    simp only [List.cons_append]
    rw [stringHex _ hex, ih]
    rfl

theorem stringSound {cs rest : List (Option Char)} {pieces : List Piece} (read : string? cs = some (pieces, rest)) :
    ∃ raw, Quoted pieces raw ∧ cs = raw ++ rest := by
  have added {piece : Piece} {cs : List (Option Char)} {found : List Piece × List (Option Char)}
      (read : (string? cs).map (addPiece piece) = some found) :
      ∃ left, string? cs = some (left, found.2) ∧ found.1 = piece :: left := by
    obtain ⟨⟨left, after⟩, later, rfl⟩ := Option.map_eq_some_iff.mp read
    exact ⟨left, later, rfl⟩
  induction cs using string?.induct generalizing pieces with
  | case1 cs =>
    cases read
    exact ⟨[some '"'], .close, rfl⟩
  | case2 a b c d cs code _ _ _ hex ih =>
    rw [stringHex cs hex] at read
    obtain ⟨left, later, rfl⟩ := added read
    obtain ⟨raw, quoted, rfl⟩ := ih later
    exact ⟨_, .code hex quoted, rfl⟩
  | case3 a b c d cs unread _ =>
    rw [string?] at read
    split at read
    · rename_i hex later
      exact (unread _ _ _ hex later).elim
    · contradiction
  | case4 c cs _ _ _ _ _ escape ih =>
    rw [stringEscape cs escape] at read
    obtain ⟨left, later, rfl⟩ := added read
    obtain ⟨raw, quoted, rfl⟩ := ih later
    exact ⟨_, .escape escape quoted, rfl⟩
  | case5 c cs other unread _ =>
    rw [string?] at read
    · split at read
      · rename_i escape later
        exact (unread _ _ _ escape later).elim
      · contradiction
    · exact other
  | case6 c cs quote _ _ control =>
    rw [string?] at read
    · rw [if_pos control] at read
      contradiction
    all_goals assumption
  | case7 c cs quote _ _ plain ih =>
    simp only [Bool.or_eq_true, decide_eq_true_eq, not_or] at plain
    rw [stringPlain cs quote plain.2 plain.1] at read
    obtain ⟨left, later, rfl⟩ := added read
    obtain ⟨raw, quoted, rfl⟩ := ih later
    exact ⟨_, .char (not_lt.mp plain.1) quote plain.2 quoted, rfl⟩
  | case8 cs ih =>
    have stray : string? (none :: cs) = (string? cs).map (addPiece .stray) := rfl
    rw [stray] at read
    obtain ⟨left, later, rfl⟩ := added read
    obtain ⟨raw, quoted, rfl⟩ := ih later
    exact ⟨_, .stray quoted, rfl⟩
  | case9 => contradiction

def Undigit (cs : List (Option Char)) : Prop := ∀ c, cs.head? = some (some c) → c.isDigit = false

theorem digitsSound {cs rest : List (Option Char)} {ds : List Char} (read : digits cs = (ds, rest)) :
    cs = ds.map some ++ rest ∧ ∀ c ∈ ds, IsDigit c := by
  induction cs using digits.induct generalizing ds with
  | case1 c cs digit left after found ih =>
    rw [digits, if_pos digit] at read
    obtain ⟨rfl, rfl⟩ := Prod.mk.inj read
    obtain ⟨split, all⟩ := ih rfl
    refine ⟨congrArg (some c :: ·) split, ?_⟩
    intro d mem
    rcases List.mem_cons.mp mem with rfl | later
    · exact digit
    · exact all d later
  | case2 c cs other =>
    rw [digits, if_neg other] at read
    obtain ⟨rfl, rfl⟩ := Prod.mk.inj read
    exact ⟨rfl, nofun⟩
  | case3 cs other =>
    rw [digits] at read
    · obtain ⟨rfl, rfl⟩ := Prod.mk.inj read
      exact ⟨rfl, nofun⟩
    · exact other

theorem digitsRead {ds : List Char} {rest : List (Option Char)} (all : ∀ c ∈ ds, IsDigit c) (ends : Undigit rest) :
    digits (ds.map some ++ rest) = (ds, rest) := by
  induction ds with
  | nil =>
    cases rest with
    | nil => rfl
    | cons c rest =>
      cases c with
      | none => rfl
      | some c => rw [List.map_nil, List.nil_append, digits, if_neg (by rw [ends c rfl]; exact Bool.false_ne_true)]
  | cons d ds ih =>
    have here : d.isDigit = true := all d List.mem_cons_self
    rw [List.map_cons, List.cons_append, digits, if_pos here, ih fun c mem => all c (List.mem_cons_of_mem _ mem)]

theorem wholeSound {cs rest : List (Option Char)} {ds : List Char} (read : whole? cs = some (ds, rest)) :
    cs = ds.map some ++ rest ∧ Digits IsDigit ds ∧ (ds.head? = some '0' → ds = ['0']) := by
  rw [whole?] at read
  cases found : digits cs with
  | mk left after =>
    rw [found] at read
    obtain ⟨split, all⟩ := digitsSound found
    split at read
    · contradiction
    · contradiction
    · rename_i filled single same
      cases same
      cases read
      refine ⟨split, ⟨filled, all⟩, ?_⟩
      intro zero
      match ds with
      | [c] =>
        cases zero
        rfl
      | c :: d :: ds =>
        cases zero
        exact (single _ _ rfl).elim

theorem wholeRead {ds : List Char} {rest : List (Option Char)} (whole : Digits IsDigit ds)
    (leading : ds.head? = some '0' → ds = ['0']) (ends : Undigit rest) :
    whole? (ds.map some ++ rest) = some (ds, rest) := by
  rw [whole?, digitsRead whole.all ends]
  split
  · rename_i same
    cases same
    exact absurd rfl whole.filled
  · rename_i same
    cases same
    exact nomatch leading rfl
  · rename_i same
    cases same
    rfl

theorem fractionSound {cs rest : List (Option Char)} {places : List Char} (read : fraction? cs = some (places, rest)) :
    ∃ raw, Fraction places raw ∧ cs = raw.map some ++ rest := by
  rw [fraction?.eq_def] at read
  split at read
  · rename_i after
    split at read
    · contradiction
    · rename_i filled
      cases found : digits after with
      | mk left later =>
        rw [found] at read filled
        cases read
        obtain ⟨split, all⟩ := digitsSound found
        refine ⟨_, .places ⟨?_, all⟩, congrArg (some '.' :: ·) split⟩
        rintro rfl
        exact filled _ rfl
  · cases read
    exact ⟨[], .absent, rfl⟩

theorem fractionRead {places raw : List Char} {rest : List (Option Char)} (fraction : Fraction places raw)
    (ends : Undigit rest) (point : rest.head? ≠ some (some '.')) :
    fraction? (raw.map some ++ rest) = some (places, rest) := by
  cases fraction with
  | absent =>
    rw [List.map_nil, List.nil_append, fraction?]
    rintro after rfl
    exact point rfl
  | places digits =>
    rw [List.map_cons, List.cons_append, fraction?, digitsRead digits.all ends]
    split
    · rename_i same
      cases same
      exact absurd rfl digits.filled
    · rfl

def exponentDigits? (negative : Bool) (cs : List (Option Char)) :
    Option (Option (Bool × List Char) × List (Option Char)) :=
  match digits cs with
  | ([], _) => none
  | (ds, rest) => some (some (negative, ds), rest)

def exponentSign (cs : List (Option Char)) : Bool × List (Option Char) :=
  match cs with
  | some '-' :: rest => (true, rest)
  | some '+' :: rest => (false, rest)
  | rest => (false, rest)

theorem exponentLetter {c : Char} (named : c = 'e' ∨ c = 'E') (cs : List (Option Char)) :
    exponent? (some c :: cs) = exponentDigits? (exponentSign cs).1 (exponentSign cs).2 := by
  rw [exponent?.eq_def]
  exact if_pos named

theorem exponentUnsigned {c : Char} (digit : c.isDigit = true) (cs : List (Option Char)) :
    exponentSign (some c :: cs) = (false, some c :: cs) := by
  rw [exponentSign.eq_def]
  split
  · rename_i same
    cases same
    contradiction
  · rename_i same
    cases same
    contradiction
  · rfl

theorem exponentDigitsSound {cs rest : List (Option Char)} {negative : Bool} {exponent : Option (Bool × List Char)}
    (read : exponentDigits? negative cs = some (exponent, rest)) :
    ∃ ds, exponent = some (negative, ds) ∧ Digits IsDigit ds ∧ cs = ds.map some ++ rest := by
  rw [exponentDigits?] at read
  split at read
  · contradiction
  · rename_i ds left filled found
    cases read
    obtain ⟨split, all⟩ := digitsSound found
    exact ⟨ds, rfl, ⟨filled, all⟩, split⟩

theorem exponentDigitsRead {ds : List Char} {rest : List (Option Char)} (negative : Bool) (digits : Digits IsDigit ds)
    (ends : Undigit rest) : exponentDigits? negative (ds.map some ++ rest) = some (some (negative, ds), rest) := by
  rw [exponentDigits?, digitsRead digits.all ends]
  split
  · rename_i same
    cases same
    exact absurd rfl digits.filled
  · rename_i same
    cases same
    rfl

theorem exponentSound {cs rest : List (Option Char)} {exponent : Option (Bool × List Char)}
    (read : exponent? cs = some (exponent, rest)) : ∃ raw, Exponent exponent raw ∧ cs = raw.map some ++ rest := by
  by_cases letter : ∃ c after, cs = some c :: after ∧ (c = 'e' ∨ c = 'E')
  · obtain ⟨c, after, rfl, named⟩ := letter
    rw [exponentLetter named] at read
    obtain ⟨ds, rfl, digits, split⟩ := exponentDigitsSound read
    rw [exponentSign.eq_def] at split ⊢
    split at split
    · subst split
      exact ⟨_, .minus named digits, rfl⟩
    · subst split
      exact ⟨_, .plus named digits, rfl⟩
    · subst split
      exact ⟨_, .plain named digits, rfl⟩
  · have none : exponent? cs = some (none, cs) := by
      rw [exponent?.eq_def]
      split
      · rename_i c after
        rw [if_neg fun named => letter ⟨c, after, rfl, named⟩]
      · rfl
    cases none.symm.trans read
    exact ⟨[], .absent, rfl⟩

theorem bareDigit : ∀ c : Char, c.isDigit = true → isBare (some c) = true := Text.digitInduct (by decide)

theorem endsUndigit {cs : List (Option Char)} (ends : Ends cs) : Undigit cs := by
  intro c first
  by_contra digit
  rw [Bool.not_eq_false] at digit
  exact Bool.false_ne_true ((ends (some c) first).symm.trans (bareDigit c digit))

theorem exponentRead {exponent : Option (Bool × List Char)} {raw : List Char} {rest : List (Option Char)}
    (scaled : Exponent exponent raw) (ends : Ends rest) :
    exponent? (raw.map some ++ rest) = some (exponent, rest) := by
  cases scaled with
  | absent =>
    rw [List.map_nil, List.nil_append, exponent?.eq_def]
    split
    · rename_i c after
      have other : ¬(c = 'e' ∨ c = 'E') := by
        rintro (rfl | rfl) <;> exact Bool.false_ne_true ((ends _ rfl).symm.trans rfl)
      rw [if_neg other]
    · rfl
  | @plain letter ds named digits =>
    have sign : exponentSign (ds.map some ++ rest) = (false, ds.map some ++ rest) := by
      obtain ⟨d, ds, rfl⟩ := List.exists_cons_of_ne_nil digits.filled
      exact exponentUnsigned (digits.all d List.mem_cons_self) _
    rw [List.map_cons, List.cons_append, exponentLetter named, sign]
    exact exponentDigitsRead false digits (endsUndigit ends)
  | plus named digits =>
    simp only [List.map_cons, List.cons_append, exponentLetter named]
    exact exponentDigitsRead false digits (endsUndigit ends)
  | minus named digits =>
    simp only [List.map_cons, List.cons_append, exponentLetter named]
    exact exponentDigitsRead true digits (endsUndigit ends)

def numberSign (cs : List (Option Char)) : Bool × List (Option Char) :=
  match cs with
  | some '-' :: rest => (true, rest)
  | cs => (false, cs)

theorem numberParts (cs : List (Option Char)) :
    number? cs = (whole? (numberSign cs).2).bind fun whole =>
      (fraction? whole.2).bind fun fraction =>
        (exponent? fraction.2).bind fun exponent =>
          some (⟨(numberSign cs).1, whole.1, fraction.1, exponent.1⟩, exponent.2) := rfl

theorem numberSound {cs rest : List (Option Char)} {n : Numeral} (read : number? cs = some (n, rest)) :
    ∃ raw, Written n raw ∧ cs = raw.map some ++ rest := by
  have signed : ∃ sign, Sign (numberSign cs).1 sign ∧ cs = sign.map some ++ (numberSign cs).2 := by
    rw [numberSign.eq_def]
    split
    · exact ⟨_, .minus, rfl⟩
    · exact ⟨_, .plus, rfl⟩
  obtain ⟨sign, signed, front⟩ := signed
  simp only [numberParts, Option.bind_eq_some_iff, Option.some.injEq, Prod.mk.injEq] at read
  obtain ⟨⟨ds, after⟩, whole, ⟨places, left⟩, point, ⟨exponent, _⟩, scaled, rfl, rfl⟩ := read
  obtain ⟨behind, digits, leading⟩ := wholeSound whole
  obtain ⟨fraction, point, (split : after = _)⟩ := fractionSound point
  obtain ⟨scale, scaled, (last : left = _)⟩ := exponentSound scaled
  refine ⟨_, .parts signed digits leading point scaled, ?_⟩
  rw [front, behind, split, last]
  simp only [List.map_append, List.append_assoc]

theorem bareDigits {ds : List Char} (digits : Digits IsDigit ds) : ∀ c ∈ ds, isBare (some c) = true := fun c mem =>
  bareDigit c (digits.all c mem)

theorem Sign.bare {negative : Bool} {raw : List Char} (sign : Sign negative raw) :
    ∀ c ∈ raw, isBare (some c) = true := by
  cases sign with
  | plus => exact nofun
  | minus =>
    intro c mem
    rw [List.mem_singleton.mp mem]
    rfl

theorem Fraction.bare {places raw : List Char} (fraction : Fraction places raw) :
    ∀ c ∈ raw, isBare (some c) = true := by
  cases fraction with
  | absent => exact nofun
  | places digits =>
    intro c mem
    rcases List.mem_cons.mp mem with rfl | later
    · rfl
    · exact bareDigits digits c later

theorem Exponent.bare {exponent : Option (Bool × List Char)} {raw : List Char} (scaled : Exponent exponent raw) :
    ∀ c ∈ raw, isBare (some c) = true := by
  have letter {c : Char} (named : c = 'e' ∨ c = 'E') : isBare (some c) = true := by
    rcases named with rfl | rfl <;> rfl
  cases scaled with
  | absent => exact nofun
  | plain named digits =>
    intro c mem
    rcases List.mem_cons.mp mem with rfl | later
    · exact letter named
    · exact bareDigits digits c later
  | plus named digits | minus named digits =>
    intro c mem
    rcases List.mem_cons.mp mem with rfl | later
    · exact letter named
    · rcases List.mem_cons.mp later with rfl | last
      · rfl
      · exact bareDigits digits c last

theorem Written.bare {n : Numeral} {raw : List Char} (written : Written n raw) :
    raw.map some ≠ [] ∧ ∀ c ∈ raw.map some, isBare c = true := by
  obtain ⟨signed, whole, _, point, scaled⟩ := written
  constructor
  · simp [whole.filled]
  · intro c mem
    obtain ⟨c, inside, rfl⟩ := List.mem_map.mp mem
    simp only [List.mem_append] at inside
    rcases inside with ((first | second) | third) | fourth
    · exact signed.bare c first
    · exact bareDigits whole c second
    · exact point.bare c third
    · exact scaled.bare c fourth

theorem Written.first {n : Numeral} {raw : List Char} (written : Written n raw) :
    ∃ c after, raw = c :: after ∧ (c = '-' ∨ IsDigit c) := by
  obtain @⟨negative, sign, ds, _, _, _, _, signed, whole, _, _, _⟩ := written
  obtain ⟨d, ds, rfl⟩ := List.exists_cons_of_ne_nil whole.filled
  cases signed with
  | plus => exact ⟨d, _, rfl, .inr (whole.all d List.mem_cons_self)⟩
  | minus => exact ⟨'-', _, rfl, .inl rfl⟩

theorem numberRead {n : Numeral} {raw : List Char} {rest : List (Option Char)} (written : Written n raw)
    (ends : Ends rest) : number? (raw.map some ++ rest) = some (n, rest) := by
  obtain @⟨negative, sign, ds, places, fraction, scale, exponent, signed, whole, leading, point, scaled⟩ := written
  -- Behind the digits before the point comes a point, a letter, or the end.
  have behind : Undigit (scale.map some ++ rest) ∧ (scale.map some ++ rest).head? ≠ some (some '.') := by
    have letter {c : Char} (named : c = 'e' ∨ c = 'E') (cs : List (Option Char)) :
        Undigit (some c :: cs) ∧ (some c :: cs).head? ≠ some (some '.') := by
      refine ⟨?_, ?_⟩
      · rintro d ⟨⟩
        rcases named with rfl | rfl <;> rfl
      · rintro ⟨⟩
        rcases named with same | same <;> exact absurd same (by decide)
    cases scaled with
    | absent => exact ⟨endsUndigit ends, fun point => Bool.false_ne_true ((ends _ point).symm.trans rfl)⟩
    | plain named _ | plus named _ | minus named _ => exact letter named _
  have next : Undigit (fraction.map some ++ (scale.map some ++ rest)) := by
    cases point with
    | absent => exact behind.1
    | places _ =>
      rintro c ⟨⟩
      rfl
  have start : numberSign ((sign ++ ds ++ fraction ++ scale).map some ++ rest) =
      (negative, ds.map some ++ (fraction.map some ++ (scale.map some ++ rest))) := by
    simp only [List.map_append, List.append_assoc]
    cases signed with
    | minus => rfl
    | plus =>
      obtain ⟨d, ds, rfl⟩ := List.exists_cons_of_ne_nil whole.filled
      have digit : d.isDigit = true := whole.all d List.mem_cons_self
      rw [numberSign.eq_def]
      split
      · rename_i same
        cases same
        contradiction
      · rfl
  simp only [numberParts, start, wholeRead whole leading next, fractionRead point behind.1 behind.2,
    exponentRead scaled ends, Option.bind_some]

end TurtleBoard.Json
