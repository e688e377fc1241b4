import TurtleBoard.Color
import TurtleBoard.Proofs.NormalForm

/-! The texts that are colors, and what they say. A place of `#rrggbb` may hold a sign for its first digit, and a number
in brackets may have one before it; the alpha that is written is held between zero and one, unless it is not a number.
The plain spellings of a color are all read as it. -/
namespace TurtleBoard

namespace Text

theorem fieldsSingle {separator : Char} {cs : List Char} : ∀ part ∈ fields (· == separator) cs, separator ∉ part := by
  induction cs with
  | nil =>
    intro part mem
    rw [List.mem_singleton.mp mem]
    exact List.not_mem_nil
  | cons c cs ih =>
    rw [fieldsSplit, List.splitOnP_cons_eq_if_modifyHead, ← fieldsSplit]
    split
    · intro part mem
      rcases List.mem_cons.mp mem with rfl | later
      · exact List.not_mem_nil
      · exact ih part later
    · rename_i other
      cases pieces : fields (· == separator) cs with
      | nil => exact nofun
      | cons first rest =>
        rw [pieces] at ih
        intro part mem
        rcases List.mem_cons.mp mem with rfl | later
        · rw [List.mem_cons]
          rintro (same | inside)
          · exact other (beq_iff_eq.mpr same.symm)
          · exact ih first List.mem_cons_self inside
        · exact ih part (List.mem_cons_of_mem _ later)

theorem fieldsIff {separator : Char} {cs : List Char} {parts : List (List Char)} :
    fields (· == separator) cs = parts ↔
      parts ≠ [] ∧ (∀ part ∈ parts, separator ∉ part) ∧ cs = [separator].intercalate parts := by
  constructor
  · rintro rfl
    refine ⟨?_, fieldsSingle, ?_⟩
    · rw [fieldsSplit]
      exact List.splitOnP_ne_nil _ _
    · rw [fieldsSplit, ← List.splitOn_eq_splitOnP, List.intercalate_splitOn]
  · rintro ⟨some, single, rfl⟩
    rw [fieldsSplit, ← List.splitOn_eq_splitOnP]
    exact List.splitOn_intercalate separator single some

theorem dropSuffixIff {finish cs rest : List Char} : dropSuffix? finish cs = some rest ↔ cs = rest ++ finish := by
  rw [dropSuffix?, Option.map_eq_some_iff]
  constructor
  · rintro ⟨reversed, found, rfl⟩
    have whole := congrArg List.reverse (dropPrefixIff.mp found)
    rwa [List.reverse_reverse, List.reverse_append, List.reverse_reverse] at whole
  · rintro rfl
    exact ⟨rest.reverse, dropPrefixIff.mpr (List.reverse_append ..), List.reverse_reverse rest⟩

theorem trimBetween {before cs after : List Char} (blank : ∀ c ∈ before ++ after, isBlank c = true) :
    trim (before ++ cs ++ after) = trim cs := by
  have front : ∀ c ∈ before, isBlank c = true := fun c mem => blank c (List.mem_append_left _ mem)
  have back : ∀ c ∈ after, isBlank c = true := fun c mem => blank c (List.mem_append_right _ mem)
  have start : trimStart (before ++ cs ++ after) = (cs ++ after).dropWhile isBlank := by
    rw [trimStart, List.append_assoc, List.dropWhile_append_of_pos front]
  rw [trim, start, List.dropWhile_append, trim, trimStart]
  split
  · rename_i none
    rw [List.isEmpty_iff.mp none, List.dropWhile_eq_nil_iff.mpr back]
  · rw [trimEnd, trimEnd, List.reverse_append,
      List.dropWhile_append_of_pos fun c mem => back c (List.mem_reverse.mp mem)]

theorem notMemTrim {separator : Char} {cs : List Char} (visible : isBlank separator = false)
    (absent : separator ∉ trim cs) : separator ∉ cs := by
  obtain ⟨before, after, whole, blank⟩ := trimAround cs
  rw [whole, List.append_assoc, List.mem_append, List.mem_append]
  rintro (front | inside | back)
  · exact Bool.false_ne_true (visible.symm.trans (blank _ (List.mem_append_left _ front)))
  · exact absent inside
  · exact Bool.false_ne_true (visible.symm.trans (blank _ (List.mem_append_right _ back)))

end Text

namespace Number
open Float.Model Float.Model.UnpackedFloat

theorem aboveOne {m : Nat} {e : Int} (canonical : Canonical m e) :
    (compare (-52) e).then (compare (2 ^ 52) m) = .lt ↔ 1 < m * (2 : Rat) ^ e := by
  have small := canonical.small
  have place := canonical.place
  rw [Ordering.then_eq_lt, compare_lt_iff_lt, compare_eq_iff_eq, compare_lt_iff_lt]
  rcases lt_trichotomy (-52) e with above | rfl | below
  · have least : 2 ^ 52 ≤ m := ((Nat.log2_eq_iff canonical.pos.ne').mp (show m.log2 = 52 by omega)).1
    have next : (2 : Rat) ^ (-51 : Int) ≤ (2 : Rat) ^ e := zpow_le_zpow_right₀ (by decide) (by omega)
    refine iff_of_true (.inl above) ?_
    calc
      (1 : Rat) < 2 ^ 52 * (2 : Rat) ^ (-51 : Int) := by norm_num
      _ ≤ m * (2 : Rat) ^ e := mul_le_mul (by exact_mod_cast least) next (by positivity) (by positivity)
  · have whole : (m : Rat) * (2 : Rat) ^ (-52 : Int) = m / 2 ^ 52 := rfl
    rw [whole, one_lt_div (by positivity)]
    simp only [lt_self_iff_false, true_and, false_or]
    exact_mod_cast Iff.rfl
  · have last : (2 : Rat) ^ e ≤ (2 : Rat) ^ (-53 : Int) := zpow_le_zpow_right₀ (by decide) (by omega)
    refine iff_of_false (by omega) (not_lt_of_ge ?_)
    calc
      m * (2 : Rat) ^ e ≤ 2 ^ 53 * (2 : Rat) ^ (-53 : Int) :=
        mul_le_mul (by exact_mod_cast small.le) last (by positivity) (by positivity)
      _ = 1 := by norm_num

section
variable (x : Float)

theorem belowUnit : Scalar.lt x 0.0 = x.toModel.unpack.lt (.zero .positive) := ltUnpack x _

theorem aboveUnit : Scalar.lt 1.0 x = (finite .positive (2 ^ 52) (-52) (by decide)).lt x.toModel.unpack := ltUnpack _ x

end

theorem valueNought : value? 0.0 = some 0 := rfl

theorem valueUnit : value? 1.0 = some 1 := rfl

theorem clampNaN {x : Float} (nan : x.isNaN = true) : Scalar.clamp 0.0 1.0 x = x := by
  change x.toModel.unpack.isNaN = true at nan
  rw [Scalar.clamp, belowUnit, aboveUnit]
  cases shape : x.toModel.unpack with
  | notANumber => rfl
  | _ =>
    rw [shape] at nan
    contradiction

theorem clampValue {x : Float} {q : Rat} (value : value? x = some q) :
    value? (Scalar.clamp 0.0 1.0 x) = some (max 0 (min q 1)) := by
  rw [Scalar.clamp, belowUnit, aboveUnit]
  cases shape : x.toModel.unpack with
  | notANumber | infinity => simp only [value?, shape, reduceCtorEq] at value
  | zero s =>
    obtain rfl : 0 = q := by simpa only [value?, shape, Option.some.injEq] using value
    exact value
  | finite s m e pos =>
    have canonical := canonicalUnpack shape
    obtain rfl : s.apply m * (2 : Rat) ^ e = q := Option.some.inj ((valueFinite shape).symm.trans value)
    have unit : 0 < m * (2 : Rat) ^ e := mul_pos (by exact_mod_cast pos) (zpow_pos (by decide) e)
    cases s with
    | positive =>
      have below : (finite .positive m e pos).lt (.zero .positive) = false := rfl
      have above : (finite .positive (2 ^ 52) (-52) (by decide)).lt (finite .positive m e pos) = true ↔
          1 < m * (2 : Rat) ^ e := by
        rw [← aboveOne canonical, UnpackedFloat.lt, beq_iff_eq]
        exact Option.some_inj
      simp only [below, Sign.apply, Int.cast_natCast, Bool.false_eq_true, if_false] at value ⊢
      split
      · rename_i more
        rw [min_eq_right (above.mp more).le]
        exact valueUnit
      · rename_i within
        rw [min_eq_left (not_lt.mp (mt above.mpr within)), max_eq_right unit.le]
        exact value
    | negative =>
      have below : (finite .negative m e pos).lt (.zero .positive) = true := rfl
      simp only [below, Sign.apply, Int.cast_neg, Int.cast_natCast, neg_mul, if_true]
      rw [min_eq_left (by linarith), max_eq_left (by linarith)]
      exact valueNought

theorem clampUnit {x : Float} (number : x.isNaN = false) :
    ∃ r, value? (Scalar.clamp 0.0 1.0 x) = some r ∧ 0 ≤ r ∧ r ≤ 1 := by
  cases value : value? x with
  | some q => exact ⟨_, clampValue value, le_max_left 0 _, max_le (by decide) (min_le_right q 1)⟩
  | none =>
    rw [Scalar.clamp, belowUnit, aboveUnit]
    change x.toModel.unpack.isNaN = false at number
    cases shape : x.toModel.unpack with
    | infinity s =>
      cases s with
      | positive => exact ⟨1, valueUnit, by decide, by decide⟩
      | negative => exact ⟨0, valueNought, by decide, by decide⟩
    | notANumber =>
      rw [shape] at number
      contradiction
    | zero | finite => simp only [value?, shape, reduceCtorEq] at value

def nanWords : List (List Char) := ["nan".toList, "+nan".toList, "-nan".toList]

theorem unpackNeg (x : Float) : (-x).toModel.unpack = (Float.Model.pack x.toModel.unpack.neg).unpack := rfl

theorem nearestNumber (n d : Nat) : (nearest n d).isNaN = false := by
  obtain ⟨bits, within, same⟩ : ∃ bits, bits ≤ infinityBits ∧ nearest n d = Float.ofBits (UInt64.ofNat bits) :=
    ⟨_, min_le_left _ _, rfl⟩
  rw [same]
  rcases within.lt_or_eq with finite | rfl
  · cases bitsMagnitude finite with
    | zero shape => exact congrArg UnpackedFloat.isNaN shape
    | finite _ shape => exact congrArg UnpackedFloat.isNaN shape
  · have shape := packedBits infinityBits
    rw [unpackInfinity] at shape
    exact congrArg UnpackedFloat.isNaN shape

theorem scaledNumber (digits : List Char) (places : Int) : (scaled digits places).isNaN = false := by
  rw [scaled]
  split_ifs
  · exact nearestNumber _ _
  · exact nearestNumber _ _
  · exact nearestNumber _ _
  · rw [ofDecimal]
    split_ifs
    · exact nearestNumber _ _
    · exact nearestNumber _ _

theorem magnitudeNaN {cs : List Char} {x : Float} (read : readMagnitude? cs = some x) :
    x.isNaN = true ↔ cs = "nan".toList := by
  rw [readMagnitude?] at read
  split at read
  · rename_i infinite
    cases read
    refine iff_of_false (by decide) ?_
    rintro rfl
    revert infinite
    decide
  · split at read
    · rename_i nan
      cases read
      exact iff_of_true rfl nan
    · rename_i other
      obtain ⟨digits, places, rfl⟩ : ∃ digits places, x = scaled digits places := by
        extract_lets whole at read
        split at read
        split at read
        · contradiction
        · split at read
          · exact ⟨_, _, (Option.some.inj read).symm⟩
          · obtain ⟨e, _, rfl⟩ := Option.map_eq_some_iff.mp read
            exact ⟨_, _, rfl⟩
          · contradiction
      rw [scaledNumber]
      exact iff_of_false Bool.false_ne_true other

theorem negNaN (x : Float) : (-x).isNaN = x.isNaN := by
  have unpacked := unpackNeg x
  change (-x).toModel.unpack.isNaN = x.toModel.unpack.isNaN
  cases shape : x.toModel.unpack with
  | notANumber =>
    rw [unpacked, shape]
    rfl
  | infinity s | zero s =>
    rw [unpacked, shape]
    cases s <;> rfl
  | finite s m e pos =>
    rw [unpacked, shape, UnpackedFloat.neg, unpackPack (canonicalUnpack shape)]
    rfl

theorem readNaN {cs : List Char} {x : Float} (read : read? cs = some x) : x.isNaN = true ↔ cs ∈ nanWords := by
  have words : cs ∈ nanWords ↔ cs = "nan".toList ∨ cs = '+' :: "nan".toList ∨ cs = '-' :: "nan".toList := by
    simp only [nanWords, List.mem_cons, List.not_mem_nil, or_false]
    exact Iff.rfl
  have letter : "nan".toList = ['n', 'a', 'n'] := rfl
  rw [words, letter]
  unfold read? at read
  split at read
  · obtain ⟨y, magnitude, rfl⟩ := Option.map_eq_some_iff.mp read
    rw [negNaN, magnitudeNaN magnitude, letter]
    simp
  · rw [magnitudeNaN read, letter]
    simp
  · rename_i plus minus
    rw [magnitudeNaN read, letter]
    refine ⟨.inl, ?_⟩
    rintro (same | same | same)
    · exact same
    · exact absurd same (minus _)
    · exact absurd same (plus _)

end Number

namespace Color
open Number (Digits IsDigit)

inductive HexChannel : List Char → UInt8 → Prop where
  | digits {c d : Char} (high : Text.isHexDigit c = true) (low : Text.isHexDigit d = true) :
      HexChannel [c, d] (UInt8.ofNat (16 * Text.hexValue c + Text.hexValue d))
  | signed {d : Char} (low : Text.isHexDigit d = true) : HexChannel ['+', d] (UInt8.ofNat (Text.hexValue d))

inductive HexForm : List Char → Color → Prop where
  | places {r g b : List Char} {red green blue : UInt8} (first : HexChannel r red) (second : HexChannel g green)
      (third : HexChannel b blue) : HexForm (r ++ g ++ b) (rgb red green blue)

inductive Channel : List Char → UInt8 → Prop where
  | plain {ds : List Char} {n : UInt8} (digits : Digits IsDigit ds) (value : Number.digitsValue ds = n.toNat) :
      Channel ds n
  | signed {ds : List Char} {n : UInt8} (digits : Digits IsDigit ds) (value : Number.digitsValue ds = n.toNat) :
      Channel ('+' :: ds) n

inductive Numbers : List Char → Color → Option (List Char) → Prop where
  | three {r g b : List Char} {red green blue : UInt8} (first : Channel (Text.trim r) red)
      (second : Channel (Text.trim g) green) (third : Channel (Text.trim b) blue) :
      Numbers ([','].intercalate [r, g, b]) (rgb red green blue) none
  | four {r g b a : List Char} {red green blue : UInt8} (first : Channel (Text.trim r) red)
      (second : Channel (Text.trim g) green) (third : Channel (Text.trim b) blue) (single : ',' ∉ a) :
      Numbers ([','].intercalate [r, g, b, a]) (rgb red green blue) (some (Text.trim a))

def openings : List String := ["rgba(", "rgb("]

inductive Form : List Char → Color → Option (List Char) → Prop where
  | hex {places : List Char} {color : Color} (hex : HexForm places color) : Form ('#' :: places) color none
  | brackets {opening : String} {inside : List Char} {color : Color} {fourth : Option (List Char)}
      (opens : opening ∈ openings) (numbers : Numbers inside color fourth) :
      Form (opening.toList ++ inside ++ ")".toList) color fourth
  | name {name : String} {color : Color} (listed : (name, color) ∈ names) : Form name.toList color none

inductive Alpha : Option (List Char) → Float → Prop where
  | unwritten : Alpha none 1.0
  | written {a : List Char} {x : Float} (read : Number.read? a = some x) : Alpha (some a) (Scalar.clamp 0.0 1.0 x)

theorem hexByteIff {c d : Char} {n : UInt8} : Text.hexByte? [c, d] = some n ↔ HexChannel [c, d] n := by
  have sign : Text.isHexDigit '+' = false := by decide
  by_cases signed : c = '+'
  · subst signed
    have read : Text.hexByte? ['+', d] =
        if Text.isHexDigit d = true then some (UInt8.ofNat (Text.hexValue d)) else none := by
      simp [Text.hexByte?, Text.dropPlus]
    rw [read, Option.ite_none_right_eq_some, Option.some.injEq]
    constructor
    · rintro ⟨digit, rfl⟩
      exact .signed digit
    · intro channel
      cases channel with
      | digits high _ =>
        rw [sign] at high
        contradiction
      | signed digit => exact ⟨digit, rfl⟩
  · have plain : Text.dropPlus [c, d] = [c, d] := by
      rw [Text.dropPlus]
      rintro _ ⟨rfl, _⟩
      exact signed rfl
    have read : Text.hexByte? [c, d] =
        if Text.isHexDigit c = true ∧ Text.isHexDigit d = true then
          some (UInt8.ofNat (16 * Text.hexValue c + Text.hexValue d)) else none := by
      simp [Text.hexByte?, plain]
    rw [read, Option.ite_none_right_eq_some, Option.some.injEq]
    constructor
    · rintro ⟨⟨high, low⟩, rfl⟩
      exact .digits high low
    · intro channel
      cases channel with
      | digits high low => exact ⟨⟨high, low⟩, rfl⟩
      | signed _ => exact absurd rfl signed

theorem ofHexIff {places : List Char} {color : Color} : ofHex? places = some color ↔ HexForm places color := by
  constructor
  · intro found
    rw [ofHex?.eq_def] at found
    split at found
    · simp only [Option.bind_eq_bind, Option.bind_eq_some_iff, hexByteIff] at found
      obtain ⟨red, first, green, second, blue, third, same⟩ := found
      cases same
      exact .places first second third
    · contradiction
  · rintro ⟨first, second, third⟩
    have pair {places : List Char} {n : UInt8} (channel : HexChannel places n) :
        ∃ c d, places = [c, d] ∧ Text.hexByte? [c, d] = some n := by
      cases channel with
      | digits high low => exact ⟨_, _, rfl, hexByteIff.mpr (.digits high low)⟩
      | signed digit => exact ⟨_, _, rfl, hexByteIff.mpr (.signed digit)⟩
    obtain ⟨_, _, rfl, red⟩ := pair first
    obtain ⟨_, _, rfl, green⟩ := pair second
    obtain ⟨_, _, rfl, blue⟩ := pair third
    simp only [List.cons_append, List.nil_append, ofHex?, red, green, blue]
    rfl

theorem unsigned {ds : List Char} (digits : Digits IsDigit ds) : Text.dropPlus ds = ds := by
  rw [Text.dropPlus]
  rintro rest rfl
  exact Bool.false_ne_true (digits.all '+' List.mem_cons_self)

theorem byteIff {cs : List Char} {n : UInt8} : Text.byte? cs = some n ↔ Channel cs n := by
  have read : Text.byte? cs = some n ↔
      Digits IsDigit (Text.dropPlus cs) ∧ Number.digitsValue (Text.dropPlus cs) = n.toNat := by
    rw [Text.byte?, Option.map_eq_some_iff, Text.natBelow?]
    simp only [Option.ite_none_right_eq_some, Bool.and_eq_true, Number.allDigitsIff, decide_eq_true_eq,
      Option.some.injEq]
    constructor
    · rintro ⟨value, ⟨⟨digits, small⟩, rfl⟩, rfl⟩
      exact ⟨digits, (Nat.mod_eq_of_lt small).symm⟩
    · rintro ⟨digits, value⟩
      exact ⟨_, ⟨⟨digits, value ▸ n.toNat_lt⟩, rfl⟩, by rw [value, UInt8.ofNat_toNat]⟩
  rw [read]
  constructor
  · rintro ⟨digits, value⟩
    by_cases signed : ∃ ds, cs = '+' :: ds
    · obtain ⟨ds, rfl⟩ := signed
      exact .signed digits value
    · have plain : Text.dropPlus cs = cs := by
        rw [Text.dropPlus]
        exact fun ds same => signed ⟨ds, same⟩
      rw [plain] at digits value
      exact .plain digits value
  · intro channel
    cases channel with
    | signed digits value => exact ⟨digits, value⟩
    | plain digits value =>
      rw [unsigned digits]
      exact ⟨digits, value⟩

theorem Channel.single {cs : List Char} {n : UInt8} (channel : Channel (Text.trim cs) n) : ',' ∉ cs := by
  have apart {ds : List Char} (digits : Digits IsDigit ds) : ',' ∉ ds := fun mem =>
    Bool.false_ne_true (digits.all ',' mem)
  apply Text.notMemTrim rfl
  generalize Text.trim cs = inside at channel
  cases channel with
  | plain digits _ => exact apart digits
  | signed digits _ =>
    rw [List.mem_cons, not_or]
    exact ⟨by decide, apart digits⟩

theorem argumentsIff {cs : List Char} {args : List (List Char)} :
    arguments? cs = some args ↔ ∃ opening ∈ openings, ∃ inside, cs = opening.toList ++ inside ++ ")".toList ∧
      (Text.fields (· == ',') inside).map Text.trim = args := by
  have opened {rest : List Char} :
      (Text.dropPrefix? "rgba(".toList cs).or (Text.dropPrefix? "rgb(".toList cs) = some rest ↔
        ∃ opening ∈ openings, cs = opening.toList ++ rest := by
    simp only [Option.or_eq_some_iff, Text.dropPrefixIff, openings, List.mem_cons, List.not_mem_nil, or_false,
      exists_eq_or_imp, exists_eq_left]
    constructor
    · exact Or.imp_right And.right
    · rintro (wide | narrow)
      · exact .inl wide
      · subst narrow
        exact .inr ⟨rfl, rfl⟩
  simp only [arguments?, Option.bind_eq_bind, Option.bind_eq_some_iff, opened, Text.dropSuffixIff, Option.pure_def,
    Option.some.injEq]
  constructor
  · rintro ⟨_, ⟨opening, opens, rfl⟩, inside, rfl, same⟩
    exact ⟨opening, opens, inside, (List.append_assoc ..).symm, same⟩
  · rintro ⟨opening, opens, inside, rfl, same⟩
    exact ⟨_, ⟨opening, opens, List.append_assoc ..⟩, inside, rfl, same⟩

theorem ofChannelsIff {inside : List Char} {color : Color} {alpha : Float} :
    ofChannels? ((Text.fields (· == ',') inside).map Text.trim) = some (color, alpha) ↔
      ∃ fourth, Numbers inside color fourth ∧ Alpha fourth alpha := by
  constructor
  · intro found
    obtain ⟨pieces, split⟩ : ∃ pieces, Text.fields (· == ',') inside = pieces := ⟨_, rfl⟩
    rw [split] at found
    obtain ⟨-, single, rfl⟩ := Text.fieldsIff.mp split
    match pieces with
    | [r, g, b] =>
      simp only [List.map_cons, List.map_nil, ofChannels?, Option.bind_eq_bind, Option.bind_eq_some_iff,
        byteIff] at found
      obtain ⟨red, first, green, second, blue, third, same⟩ := found
      cases same
      exact ⟨none, .three first second third, .unwritten⟩
    | [r, g, b, a] =>
      simp only [List.map_cons, List.map_nil, ofChannels?, Option.bind_eq_bind, Option.bind_eq_some_iff,
        byteIff] at found
      obtain ⟨red, first, green, second, blue, third, x, read, same⟩ := found
      cases same
      exact ⟨some (Text.trim a), .four first second third (single a (by simp)), .written read⟩
    | [] | [_] | [_, _] | _ :: _ :: _ :: _ :: _ :: _ => contradiction
  · rintro ⟨fourth, numbers, alpha⟩
    cases numbers with
    | @three r g b red green blue first second third =>
      cases alpha with
      | unwritten =>
        have split : Text.fields (· == ',') ([','].intercalate [r, g, b]) = [r, g, b] :=
          Text.fieldsIff.mpr ⟨nofun, by simp [first.single, second.single, third.single], rfl⟩
        simp only [split, List.map_cons, List.map_nil, ofChannels?, byteIff.mpr first, byteIff.mpr second,
          byteIff.mpr third]
        rfl
    | @four r g b a red green blue first second third single =>
      cases alpha with
      | written read =>
        have split : Text.fields (· == ',') ([','].intercalate [r, g, b, a]) = [r, g, b, a] :=
          Text.fieldsIff.mpr ⟨nofun, by simp [first.single, second.single, third.single, single], rfl⟩
        simp only [split, List.map_cons, List.map_nil, ofChannels?, byteIff.mpr first, byteIff.mpr second,
          byteIff.mpr third, read]
        rfl

theorem namesOnce : (names.map (·.1)).Nodup := by decide

theorem nameIff {cs : List Char} {color : Color} :
    (names.find? (·.1.toList == cs)).map (·.2) = some color ↔ ∃ name, (name, color) ∈ names ∧ name.toList = cs := by
  rw [Option.map_eq_some_iff]
  constructor
  · rintro ⟨⟨name, _⟩, found, rfl⟩
    have named := List.find?_some found
    exact ⟨name, List.mem_of_find?_eq_some found, beq_iff_eq.mp named⟩
  · rintro ⟨name, listed, rfl⟩
    cases found : names.find? (·.1.toList == name.toList) with
    | none => exact absurd (beq_self_eq_true name.toList) (List.find?_eq_none.mp found _ listed)
    | some entry =>
      have named := List.find?_some found
      have same := List.inj_on_of_nodup_map namesOnce (List.mem_of_find?_eq_some found) listed
        (String.toList_inj.mp (beq_iff_eq.mp named))
      exact ⟨entry, rfl, congrArg Prod.snd same⟩

theorem namesPlain : ∀ entry ∈ names, entry.1.toList.head? ≠ some '#' ∧ arguments? entry.1.toList = none := by decide

theorem openingsPlain : ∀ opening ∈ openings, opening.toList.head? = some 'r' := by decide

theorem Form.behindHash {cs places : List Char} {color : Color} {fourth : Option (List Char)}
    (form : Form cs color fourth) (hash : cs = '#' :: places) : fourth = none ∧ HexForm places color := by
  cases form with
  | hex hex =>
    cases hash
    exact ⟨rfl, hex⟩
  | @brackets opening _ _ _ opens _ =>
    have first := openingsPlain opening opens
    cases letters : opening.toList with
    | nil =>
      rw [letters] at first
      contradiction
    | cons c _ =>
      rw [letters] at first hash
      cases first
      cases hash
  | name listed =>
    have first := (namesPlain _ listed).1
    rw [hash] at first
    exact absurd rfl first

/- The forms are all there is, and they are told apart by how they begin. -/
theorem parseIff {text : List Char} {color : Color} {alpha : Float} :
    parse? text = some (color, alpha) ↔
      ∃ fourth, Form (Text.lower (Text.trim text)) color fourth ∧ Alpha fourth alpha := by
  rw [parse?]
  generalize Text.lower (Text.trim text) = cs
  split
  · rename_i places
    simp only [Option.map_eq_some_iff, ofHexIff, Prod.mk.injEq]
    constructor
    · rintro ⟨_, hex, rfl, rfl⟩
      exact ⟨none, .hex hex, .unwritten⟩
    · rintro ⟨fourth, form, written⟩
      obtain ⟨rfl, hex⟩ := form.behindHash rfl
      cases written
      exact ⟨color, hex, rfl, rfl⟩
  · rename_i plain
    constructor
    · intro found
      split at found
      · rename_i args bracketed
        obtain ⟨opening, opens, inside, rfl, rfl⟩ := argumentsIff.mp bracketed
        obtain ⟨fourth, numbers, written⟩ := ofChannelsIff.mp found
        exact ⟨fourth, .brackets opens numbers, written⟩
      · obtain ⟨entry, first, same⟩ := Option.map_eq_some_iff.mp found
        cases same
        obtain ⟨name, listed, rfl⟩ := nameIff.mp (congrArg (Option.map Prod.snd) first)
        exact ⟨none, .name listed, .unwritten⟩
    · rintro ⟨fourth, form, written⟩
      cases form with
      | hex _ => exact absurd rfl (plain _)
      | brackets opens numbers =>
        rw [argumentsIff.mpr ⟨_, opens, _, rfl, rfl⟩]
        exact ofChannelsIff.mpr ⟨fourth, numbers, written⟩
      | name listed =>
        cases written
        obtain ⟨entry, found, rfl⟩ := Option.map_eq_some_iff.mp (nameIff.mpr ⟨_, listed, rfl⟩)
        rw [(namesPlain _ listed).2, found]
        rfl

theorem Alpha.unit {fourth : Option (List Char)} {alpha : Float} (written : Alpha fourth alpha) :
    (alpha.isNaN = true ↔ ∃ word ∈ Number.nanWords, fourth = some word) ∧
      (alpha.isNaN = false → ∃ r, Number.value? alpha = some r ∧ 0 ≤ r ∧ r ≤ 1) := by
  cases written with
  | unwritten => exact ⟨iff_of_false (by decide) (by simp), fun _ => ⟨1, Number.valueUnit, by decide, le_rfl⟩⟩
  | @written a x read =>
    have words := Number.readNaN read
    simp only [Option.some.injEq, exists_eq_right']
    rw [← words]
    cases number : x.isNaN with
    | true =>
      rw [Number.clampNaN number, number]
      exact ⟨Iff.rfl, nofun⟩
    | false =>
      obtain ⟨r, value, unit⟩ := Number.clampUnit number
      rw [Number.numberOfValue value]
      exact ⟨Iff.rfl, fun _ => ⟨r, value, unit⟩⟩

inductive Padded (cs : List Char) : List Char → Prop where
  | blanks {before after : List Char} (blank : ∀ c ∈ before ++ after, Text.isBlank c = true) :
      Padded cs (before ++ cs ++ after)

def hexPlaces (n : UInt8) : List Char := [Text.hexDigit (n.toNat / 16), Text.hexDigit (n.toNat % 16)]

def decimal (n : UInt8) : List Char := Nat.toDigits 10 n.toNat

inductive Spelling (r g b : UInt8) : List Char → Prop where
  | hex : Spelling r g b ('#' :: (hexPlaces r ++ hexPlaces g ++ hexPlaces b))
  | decimal {red green blue : List Char} (first : Padded (decimal r) red) (second : Padded (decimal g) green)
      (third : Padded (decimal b) blue) :
      Spelling r g b ("rgb(".toList ++ [','].intercalate [red, green, blue] ++ ")".toList)

theorem Padded.trim {cs padded : List Char} (pads : Padded cs padded) (trimmed : Text.Trimmed cs) :
    Text.trim padded = cs := by
  obtain ⟨blank⟩ := pads
  rw [Text.trimBetween blank, Text.trimOfTrimmed trimmed]

theorem visibleTrimmed {cs : List Char} (visible : ∀ c ∈ cs, Text.isBlank c = false) : Text.Trimmed cs where
  start c first := visible c (List.mem_of_head? first)
  finish c last := visible c (List.mem_of_getLast? last)

theorem trimmedOfLower {cs : List Char} (trimmed : Text.Trimmed (Text.lower cs)) : Text.Trimmed cs where
  start c first := by
    rw [← Text.lowerVisible]
    apply trimmed.start
    rw [Text.lower, List.head?_map, Option.mem_def.mp first]
    rfl
  finish c last := by
    rw [← Text.lowerVisible]
    apply trimmed.finish
    rw [Text.lower, List.getLast?_map, Option.mem_def.mp last]
    rfl

theorem hexDigits : ∀ n < 16, Text.isHexDigit (Text.hexDigit n) = true ∧ Text.hexValue (Text.hexDigit n) = n ∧
    Text.isBlank (Text.hexDigit n) = false := by decide

section
variable (n : UInt8)

theorem hexChannel : HexChannel (hexPlaces n) n := by
  have whole := n.toNat_lt
  obtain ⟨high, value, _⟩ := hexDigits (n.toNat / 16) (by omega)
  obtain ⟨low, rest, _⟩ := hexDigits (n.toNat % 16) (by omega)
  have channel := HexChannel.digits high low
  rwa [value, rest, Nat.div_add_mod, UInt8.ofNat_toNat] at channel

theorem hexVisible : ∀ c ∈ hexPlaces n, Text.isBlank c = false := by
  have whole := n.toNat_lt
  simp only [hexPlaces, List.mem_cons, List.not_mem_nil, or_false, forall_eq_or_imp, forall_eq]
  exact ⟨(hexDigits (n.toNat / 16) (by omega)).2.2, (hexDigits (n.toNat % 16) (by omega)).2.2⟩

theorem decimalChannel {padded : List Char} (pads : Padded (decimal n) padded) : Channel (Text.trim padded) n := by
  have digits := Number.digitsOf n.toNat
  have visible : ∀ c ∈ decimal n, Text.isBlank c = false := fun c mem => Number.digitVisible c (digits.all c mem)
  rw [pads.trim (visibleTrimmed visible)]
  exact .plain digits (Number.digitsRead _)

end

section
variable {r g b : UInt8} {cs : List Char} (spelling : Spelling r g b cs)
include spelling

theorem Spelling.trimmed : Text.Trimmed cs := by
  cases spelling with
  | hex =>
    apply visibleTrimmed
    simp only [List.mem_cons, List.mem_append]
    rintro c (rfl | (first | second) | third)
    · rfl
    · exact hexVisible r c first
    · exact hexVisible g c second
    · exact hexVisible b c third
  | decimal =>
    constructor
    · rintro c first
      cases first
      rfl
    · rw [List.getLast?_append]
      rintro c last
      cases last
      rfl

theorem Spelling.form : Form cs (rgb r g b) none := by
  cases spelling with
  | hex => exact .hex (.places (hexChannel r) (hexChannel g) (hexChannel b))
  | decimal first second third =>
    have opens : "rgb(" ∈ openings := List.mem_cons_of_mem _ List.mem_cons_self
    exact .brackets opens (.three (decimalChannel r first) (decimalChannel g second) (decimalChannel b third))

end

theorem hexUnsigned {places : List Char} (unsigned : '+' ∉ places) :
    (∃ color, HexForm places color) ↔ places.length = 6 ∧ ∀ c ∈ places, Text.isHexDigit c = true := by
  constructor
  · rintro ⟨_, ⟨first, second, third⟩⟩
    have pair {place : List Char} {n : UInt8} (channel : HexChannel place n) (unsigned : '+' ∉ place) :
        place.length = 2 ∧ ∀ c ∈ place, Text.isHexDigit c = true := by
      cases channel with
      | digits high low => exact ⟨rfl, by simp [high, low]⟩
      | signed _ => exact absurd List.mem_cons_self unsigned
    simp only [List.mem_append, not_or] at unsigned
    obtain ⟨two, red⟩ := pair first unsigned.1.1
    obtain ⟨two', green⟩ := pair second unsigned.1.2
    obtain ⟨two'', blue⟩ := pair third unsigned.2
    refine ⟨by simp only [List.length_append, two, two', two''], ?_⟩
    intro c mem
    rcases List.mem_append.mp mem with front | inside
    · exact (List.mem_append.mp front).elim (red c) (green c)
    · exact blue c inside
  · rintro ⟨six, digits⟩
    match places with
    | [r, r', g, g', b, b'] =>
      simp only [List.mem_cons, List.not_mem_nil, or_false, forall_eq_or_imp, forall_eq] at digits
      obtain ⟨red, red', green, green', blue, blue'⟩ := digits
      exact ⟨_, .places (.digits red red') (.digits green green') (.digits blue blue')⟩

structure Parsing (text : List Char) : Prop where
  found : ∀ color alpha, parse? text = some (color, alpha) ↔
    ∃ fourth, Form (Text.lower (Text.trim text)) color fourth ∧ Alpha fourth alpha
  hash : ∀ places, Text.lower (Text.trim text) = '#' :: places →
    (∀ color alpha, parse? text = some (color, alpha) ↔ HexForm places color ∧ alpha = 1.0) ∧
      ('+' ∉ places →
        ((parse? text).isSome = true ↔ places.length = 6 ∧ ∀ c ∈ places, Text.isHexDigit c = true))
  alpha : ∀ color alpha, parse? text = some (color, alpha) →
    (alpha.isNaN = true ↔ ∃ word ∈ Number.nanWords, Form (Text.lower (Text.trim text)) color (some word)) ∧
      (alpha.isNaN = false → ∃ r, Number.value? alpha = some r ∧ 0 ≤ r ∧ r ≤ 1)
  spellings : ∀ r g b spelled, Spelling r g b (Text.lower spelled) → Padded spelled text →
    parse? text = some (rgb r g b, 1.0)

theorem parseHash {text places : List Char} (hash : Text.lower (Text.trim text) = '#' :: places) (color : Color)
    (alpha : Float) : parse? text = some (color, alpha) ↔ HexForm places color ∧ alpha = 1.0 := by
  rw [parseIff, hash]
  constructor
  · rintro ⟨fourth, form, written⟩
    obtain ⟨rfl, hex⟩ := form.behindHash rfl
    cases written
    exact ⟨hex, rfl⟩
  · rintro ⟨hex, rfl⟩
    exact ⟨none, .hex hex, .unwritten⟩

theorem nanRead : ∀ word ∈ Number.nanWords, (Number.read? word).isSome = true := by decide

theorem formsParsed (text : List Char) : Parsing text where
  found _ _ := parseIff
  hash := by
    intro places hash
    refine ⟨parseHash hash, fun unsigned => ?_⟩
    rw [← hexUnsigned unsigned, Option.isSome_iff_exists]
    constructor
    · rintro ⟨⟨color, alpha⟩, found⟩
      exact ⟨color, ((parseHash hash color alpha).mp found).1⟩
    · rintro ⟨color, hex⟩
      exact ⟨(color, 1.0), (parseHash hash color 1.0).mpr ⟨hex, rfl⟩⟩
  alpha := by
    intro color alpha found
    obtain ⟨fourth, form, written⟩ := parseIff.mp found
    refine ⟨⟨fun nan => ?_, ?_⟩, written.unit.2⟩
    · obtain ⟨word, listed, rfl⟩ := written.unit.1.mp nan
      exact ⟨word, listed, form⟩
    · rintro ⟨word, listed, form'⟩
      obtain ⟨x, read⟩ := Option.isSome_iff_exists.mp (nanRead word listed)
      have written' := Alpha.written read
      have same := found.symm.trans (parseIff.mpr ⟨_, form', written'⟩)
      cases same
      exact written'.unit.1.mpr ⟨word, listed, rfl⟩
  spellings := by
    intro r g b spelled spelling padded
    rw [parseIff, padded.trim (trimmedOfLower spelling.trimmed)]
    exact ⟨none, spelling.form, .unwritten⟩

/- Six places that are not six digits, and an alpha that is between no numbers. -/
theorem signAndWord :
    (∃ places, Text.lower (Text.trim "#+1+2+3".toList) = '#' :: places ∧
      parse? "#+1+2+3".toList = some (rgb 1 2 3, 1.0) ∧ ¬ ∀ c ∈ places, Text.isHexDigit c = true) ∧
    ∃ alpha, parse? "rgba(0, 0, 0, nan)".toList = some (rgb 0 0 0, alpha) ∧ alpha.isNaN = true ∧
      Number.value? alpha = none := by
  refine ⟨⟨"+1+2+3".toList, rfl, rfl, by decide⟩, 0.0 / 0.0, ?_, rfl, rfl⟩
  rfl

end Color
end TurtleBoard
