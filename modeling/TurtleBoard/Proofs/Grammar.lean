import Mathlib.Data.List.Forall2
import Mathlib.Data.List.TakeWhile
import TurtleBoard.Script.Line

/-! The grammar of a line, said without the order of the tests: how each production may be spelled, and what it says.
The reader accepts exactly what some production spells. No line is spelled by two of them, but for `color off`, which is
a color text too. -/
namespace TurtleBoard

namespace Text

structure Trimmed (cs : List Char) : Prop where
  start : ∀ c ∈ cs.head?, isBlank c = false
  finish : ∀ c ∈ cs.getLast?, isBlank c = false

theorem headVisible (cs : List Char) : ∀ c ∈ (cs.dropWhile isBlank).head?, isBlank c = false := by
  intro c first
  have visible := List.head?_dropWhile_not isBlank cs
  rw [Option.mem_def.mp first] at visible
  exact visible

theorem trimTrimmed (cs : List Char) : Trimmed (trim cs) where
  start := by
    intro c first
    have front : trim cs <+: trimStart cs := by
      rw [trim, trimEnd, ← List.reverse_suffix, List.reverse_reverse]
      exact List.dropWhile_suffix isBlank
    obtain ⟨rest, same⟩ := front
    apply headVisible cs c
    rw [← trimStart, ← same, List.head?_append, Option.mem_def.mp first]
    rfl
  finish := by
    intro c last
    rw [trim, trimEnd, List.getLast?_reverse] at last
    exact headVisible _ c last

theorem trimOfTrimmed {cs : List Char} (trimmed : Trimmed cs) : trim cs = cs := by
  have stays {cs : List Char} (visible : ∀ c ∈ cs.head?, isBlank c = false) : cs.dropWhile isBlank = cs := by
    cases cs with
    | nil => rfl
    | cons c cs => rw [List.dropWhile_cons_of_neg (by rw [visible c rfl]; exact Bool.false_ne_true)]
  have finish : ∀ c ∈ cs.reverse.head?, isBlank c = false := by
    rw [List.head?_reverse]
    exact trimmed.finish
  rw [trim, trimStart, stays trimmed.start, trimEnd, stays finish, List.reverse_reverse]

theorem trimAround (cs : List Char) :
    ∃ before after, cs = before ++ trim cs ++ after ∧ ∀ c ∈ before ++ after, isBlank c = true := by
  have front := List.takeWhile_append_dropWhile (p := isBlank) (l := cs)
  have back := congrArg List.reverse
    (List.takeWhile_append_dropWhile (p := isBlank) (l := (cs.dropWhile isBlank).reverse))
  rw [List.reverse_append, List.reverse_reverse] at back
  refine ⟨cs.takeWhile isBlank, ((cs.dropWhile isBlank).reverse.takeWhile isBlank).reverse, ?_, ?_⟩
  · rw [List.append_assoc, trim, trimEnd, trimStart, back, front]
  · intro c mem
    rcases List.mem_append.mp mem with mem | mem
    · exact List.mem_takeWhile_imp mem
    · exact List.mem_takeWhile_imp (List.mem_reverse.mp mem)

theorem lowerInduct {motive : Char → Prop} (own : ∀ c : Char, c.toLower = c → motive c)
    (capital : ∀ n < 26, motive (Char.ofNat (65 + n))) (c : Char) : motive c := by
  by_cases range : 65 ≤ c.toNat ∧ c.toNat ≤ 90
  · have here := capital (c.toNat - 65) (by omega)
    rwa [Nat.add_sub_of_le range.1, Char.ofNat_toNat] at here
  · exact own c (dif_neg fun ⟨low, high⟩ => range ⟨low, high⟩)

end Text

namespace Number

structure Digits (digit : Char → Prop) (ds : List Char) : Prop where
  filled : ds ≠ []
  all : ∀ c ∈ ds, digit c

inductive Numeral (digit : Char → Prop) : List Char → Float → Prop where
  | whole {ds : List Char} (digits : Digits digit ds) : Numeral digit ds (ofDecimal (digitsValue ds) 0)
  | point {ds fs : List Char} (digits : Digits digit ds) (places : Digits digit fs) :
      Numeral digit (ds ++ '.' :: fs) (ofDecimal (digitsValue (ds ++ fs)) fs.length)

def IsDigit (c : Char) : Prop := c.isDigit = true

theorem allDigitsIff (cs : List Char) : allDigits cs = true ↔ Digits IsDigit cs := by
  simp only [allDigits, Bool.and_eq_true, Bool.not_eq_true', List.isEmpty_eq_false_iff, List.all_eq_true]
  exact ⟨fun ⟨filled, all⟩ => ⟨filled, all⟩, fun ⟨filled, all⟩ => ⟨filled, all⟩⟩

theorem readPlainIff (cs : List Char) (n : Float) : readPlain? cs = some n ↔ Numeral IsDigit cs n := by
  constructor
  · intro read
    have whole : ∀ c ∈ cs.takeWhile Char.isDigit, IsDigit c := fun c mem => List.mem_takeWhile_imp mem
    have parts := List.takeWhile_append_dropWhile (p := Char.isDigit) (l := cs)
    rw [readPlain?] at read
    split at read
    · contradiction
    · rename_i filled
      rw [Bool.not_eq_true, List.isEmpty_eq_false_iff] at filled
      split at read
      · rename_i rest
        rw [rest, List.append_nil] at parts
        rw [parts] at read filled whole
        cases read
        exact .whole ⟨filled, whole⟩
      · rename_i fraction rest
        split at read
        · rename_i places
          cases read
          rw [rest] at parts
          have numeral := Numeral.point ⟨filled, whole⟩ ((allDigitsIff fraction).mp places)
          rwa [parts] at numeral
        · contradiction
      · contradiction
  · intro numeral
    cases numeral with
    | whole digits =>
      have taken : cs.takeWhile Char.isDigit = cs := List.takeWhile_eq_self_iff.mpr digits.all
      have dropped : cs.dropWhile Char.isDigit = [] := List.dropWhile_eq_nil_iff.mpr digits.all
      simp only [readPlain?, taken, dropped, List.isEmpty_eq_false_iff.mpr digits.filled]
      rfl
    | @point ds fs digits places =>
      have taken : (ds ++ '.' :: fs).takeWhile Char.isDigit = ds := by
        rw [List.takeWhile_append_of_pos digits.all]
        exact List.append_nil ds
      have dropped : (ds ++ '.' :: fs).dropWhile Char.isDigit = '.' :: fs := List.dropWhile_append_of_pos digits.all
      simp only [readPlain?, taken, dropped, List.isEmpty_eq_false_iff.mpr digits.filled,
        (allDigitsIff fs).mpr places]
      rfl

end Number

namespace Line
open Number (IsDigit Numeral)

def spellings (letter : Char) : List Char :=
  letter :: letter.toUpper :: if letter = 's' then ['ſ'] else if letter = 'k' then ['\u212a'] else []

/- The members of a list are tried, and not every character there is. -/
instance (priority := 2000) decideMembers (p : Char → Prop) [DecidablePred p] (cs : List Char) :
    Decidable (∀ c ∈ cs, p c) := List.decidableBAll p cs

def letters : List Char := "abcdefghijklmnopqrstuvwxyz ".toList

theorem letterCases : ∀ letter ∈ letters,
    letter.toLower = letter ∧ letter.toUpper.toLower = letter ∧ letter ≠ 'ſ' ∧ letter ≠ '\u212a' ∧
      letter.toUpper ≠ 'ſ' ∧ letter.toUpper ≠ '\u212a' := by decide

theorem upperToLower : ∀ c : Char, c.toLower ≠ c → c.toLower.toUpper = c :=
  Text.lowerInduct (fun _ same changed => absurd same changed) (by decide)

theorem lowerIff {letter : Char} (plain : letter ∈ letters) (c : Char) :
    c.toLower = letter ↔ c = letter ∨ c = letter.toUpper := by
  obtain ⟨own, capital, _⟩ := letterCases letter plain
  constructor
  · rintro rfl
    by_cases same : c.toLower = c
    · exact .inl same.symm
    · exact .inr (upperToLower c same).symm
  · rintro (rfl | rfl)
    · exact own
    · exact capital

theorem foldIff {letter : Char} (plain : letter ∈ letters) (c : Char) :
    foldCase c = letter ↔ c ∈ spellings letter := by
  obtain ⟨_, _, notLong, notKelvin, upperNotLong, upperNotKelvin⟩ := letterCases letter plain
  have extra : c ∈ spellings letter ↔
      (c = letter ∨ c = letter.toUpper) ∨ letter = 's' ∧ c = 'ſ' ∨ letter = 'k' ∧ c = '\u212a' := by
    simp only [spellings, List.mem_cons]
    by_cases s : letter = 's'
    · subst s
      simp [or_assoc]
    · by_cases k : letter = 'k'
      · subst k
        simp [or_assoc]
      · simp [s, k]
  rw [extra, foldCase]
  by_cases long : c = 'ſ'
  · subst long
    simp [notLong.symm, upperNotLong.symm, eq_comm]
  · by_cases kelvin : c = '\u212a'
    · subst kelvin
      simp [notKelvin.symm, upperNotKelvin.symm, eq_comm]
    · rw [if_neg long, if_neg kelvin, lowerIff plain]
      simp [long, kelvin]

def Spells (keyword word : List Char) : Prop := List.Forall₂ (fun letter c => c ∈ spellings letter) keyword word

inductive Follows (keyword argument : List Char) : List Char → Prop where
  | blank {word : List Char} (spelled : Spells keyword word) : Follows keyword argument (word ++ ' ' :: argument)

section
variable {keyword : List Char} (plain : ∀ letter ∈ keyword, letter ∈ letters)
include plain

theorem afterKeywordIff {cs rest : List Char} :
    afterKeyword? keyword cs = some rest ↔ ∃ word, Spells keyword word ∧ cs = word ++ rest := by
  induction keyword generalizing cs with
  | nil =>
    constructor
    · intro found
      exact ⟨[], .nil, Option.some.inj found⟩
    · rintro ⟨word, spelled, rfl⟩
      cases spelled
      rfl
  | cons letter keyword ih =>
    have first := plain letter List.mem_cons_self
    have later := fun k mem => plain k (List.mem_cons_of_mem _ mem)
    cases cs with
    | nil =>
      constructor
      · exact nofun
      · rintro ⟨word, spelled, empty⟩
        cases spelled
        contradiction
    | cons c cs =>
      rw [afterKeyword?]
      constructor
      · intro found
        split at found
        · rename_i folds
          obtain ⟨word, spelled, rfl⟩ := (ih later).mp found
          exact ⟨c :: word, .cons ((foldIff first c).mp folds) spelled, rfl⟩
        · contradiction
      · rintro ⟨word, spelled, same⟩
        cases spelled with
        | cons folds spelled =>
          obtain ⟨rfl, rfl⟩ := List.cons.inj same
          rw [if_pos ((foldIff first c).mpr folds)]
          exact (ih later).mpr ⟨_, spelled, rfl⟩

end

section
variable {keyword : String} (plain : ∀ letter ∈ keyword.toList, letter ∈ letters)
include plain

theorem keywordIff (cs : List Char) : isKeyword keyword cs = true ↔ Spells keyword.toList cs := by
  rw [isKeyword, beq_iff_eq, afterKeywordIff plain]
  simp only [List.append_nil, exists_eq_right']

theorem argumentIff (argument cs : List Char) :
    argument? keyword cs = some argument ↔ Follows keyword.toList argument cs := by
  rw [argument?]
  constructor
  · intro found
    split at found
    · rename_i after
      cases found
      obtain ⟨word, spelled, rfl⟩ := (afterKeywordIff plain).mp after
      exact .blank spelled
    · contradiction
  · rintro ⟨spelled⟩
    rw [(afterKeywordIff plain).mpr ⟨_, spelled, rfl⟩]
    rfl

end

theorem numberIff (keyword : String) (plain : ∀ letter ∈ keyword.toList, letter ∈ letters) (line : List Char)
    (n : Float) :
    number? keyword line = some n ↔ ∃ numeral, Follows keyword.toList numeral line ∧ Numeral IsDigit numeral n := by
  simp only [number?, Option.bind_eq_some_iff, argumentIff plain, Number.readPlainIff]

theorem wordsIff (keyword : String) (plain : ∀ letter ∈ keyword.toList, letter ∈ letters) (line text : List Char) :
    words? keyword line = some text ↔ Follows keyword.toList text line ∧ text ≠ [] ∧ '\n' ∉ text := by
  have single : (∀ c ∈ text, c ≠ '\n') ↔ '\n' ∉ text := List.forall_mem_ne'
  simp only [words?, Option.filter_eq_some_iff, argumentIff plain, Bool.and_eq_true, Bool.not_eq_true',
    List.isEmpty_eq_false_iff, List.all_eq_true, bne_iff_ne, single]

theorem spellsBlank {keyword word : List Char} (plain : ∀ letter ∈ keyword, letter ∈ letters)
    (spelled : Spells keyword word) : ' ' ∈ word ↔ ' ' ∈ keyword := by
  induction spelled with
  | nil => rfl
  | @cons letter c keyword word folds spelled ih =>
    have fold := (foldIff (plain letter List.mem_cons_self) c).mpr folds
    have later := ih fun k mem => plain k (List.mem_cons_of_mem _ mem)
    have here : ' ' = c ↔ ' ' = letter := by
      constructor
      · rintro rfl
        exact fold
      · rintro rfl
        have blank : c ∈ [' ', ' '] := (foldIff (by decide) c).mp fold
        simpa [eq_comm] using blank
    rw [List.mem_cons, List.mem_cons, here, later]

theorem spellsLower {keyword cs : List Char} (plain : ∀ letter ∈ keyword, letter ∈ letters)
    (same : Text.lower cs = keyword) : Spells keyword cs := by
  subst same
  induction cs with
  | nil => exact .nil
  | cons c cs ih =>
    have here := plain c.toLower List.mem_cons_self
    have folds : c ∈ spellings c.toLower := by
      rcases (lowerIff here c).mp rfl with own | capital
      · exact List.mem_cons.mpr (.inl own)
      · exact List.mem_cons_of_mem _ (List.mem_cons.mpr (.inl capital))
    exact .cons folds (ih fun k mem => plain k (List.mem_cons_of_mem _ mem))

theorem spellsAppend {first second line : List Char} :
    Spells (first ++ second) line ↔ ∃ word rest, line = word ++ rest ∧ Spells first word ∧ Spells second rest := by
  constructor
  · intro spelled
    induction first generalizing line with
    | nil => exact ⟨[], line, rfl, .nil, spelled⟩
    | cons letter first ih =>
      cases spelled with
      | cons folds spelled =>
        obtain ⟨word, rest, rfl, front, back⟩ := ih spelled
        exact ⟨_ :: word, rest, rfl, .cons folds front, back⟩
  · rintro ⟨word, rest, rfl, front, back⟩
    exact List.rel_append front back

theorem spellsSingle {keyword word : List Char} (plain : ∀ letter ∈ keyword, letter ∈ letters)
    (spelled : Spells keyword word) : '\n' ∉ word := by
  intro mem
  induction spelled with
  | nil => contradiction
  | @cons letter c keyword word folds spelled ih =>
    have here := plain letter List.mem_cons_self
    rcases List.mem_cons.mp mem with rfl | later
    · obtain rfl : '\n' = letter := (foldIff here _).mpr folds
      exact absurd here (by decide)
    · exact ih (fun k mem => plain k (List.mem_cons_of_mem _ mem)) later

theorem followsIff {first second line : List Char} :
    Spells (first ++ ' ' :: second) line ↔ ∃ argument, Follows first argument line ∧ Spells second argument := by
  rw [spellsAppend]
  constructor
  · rintro ⟨word, rest, rfl, front, back⟩
    cases back with
    | @cons _ c _ argument folds back =>
      obtain rfl : c = ' ' := by
        have blank : c ∈ [' ', ' '] := folds
        simpa using blank
      exact ⟨argument, .blank front, back⟩
  · rintro ⟨argument, ⟨front⟩, back⟩
    exact ⟨_, _, rfl, front, .cons (by decide) back⟩

theorem spellsPrefix {first second word other rest left : List Char} (plain : ∀ letter ∈ first, letter ∈ letters)
    (plain' : ∀ letter ∈ second, letter ∈ letters) (spelled : Spells first word) (spelled' : Spells second other)
    (same : word ++ rest = other ++ left) : first <+: second ∨ second <+: first := by
  induction spelled generalizing second other with
  | nil => exact .inl List.nil_prefix
  | @cons letter c first word folds spelled ih =>
    cases spelled' with
    | nil => exact .inr List.nil_prefix
    | @cons letter' c' second other folds' spelled' =>
      obtain ⟨rfl, later⟩ := List.cons.inj same
      have here := plain letter List.mem_cons_self
      have here' := plain' letter' List.mem_cons_self
      obtain rfl : letter = letter' := ((foldIff here c).mpr folds).symm.trans ((foldIff here' c).mpr folds')
      have rest := ih (fun k mem => plain k (List.mem_cons_of_mem _ mem))
        (fun k mem => plain' k (List.mem_cons_of_mem _ mem)) spelled' later
      simpa only [List.cons_prefix_cons, true_and] using rest

theorem wordsOrIff (line text : List Char) :
    (words? "color" line).or (words? "colour" line) = some text ↔
      (Follows "color".toList text line ∧ text ≠ [] ∧ '\n' ∉ text) ∨
        Follows "colour".toList text line ∧ text ≠ [] ∧ '\n' ∉ text := by
  rw [Option.or_eq_some_iff, wordsIff "color" (by decide), wordsIff "colour" (by decide)]
  constructor
  · exact Or.imp_right And.right
  · rintro (american | british)
    · exact .inl american
    · refine .inr ⟨?_, british⟩
      rw [Option.eq_none_iff_forall_ne_some]
      intro other found
      rw [wordsIff "color" (by decide)] at found
      obtain ⟨⟨spelled⟩, -⟩ := british
      obtain ⟨follows, -⟩ := found
      generalize same : _ ++ ' ' :: text = line at follows
      obtain ⟨spelled'⟩ := follows
      have comparable := spellsPrefix (by decide) (by decide) spelled spelled' same
      revert comparable
      decide

inductive Shape where
  | alone (command : Command Float)
  | number (build : Float → Command Float)
  | words (build : List Char → Command Float)

def Shape.isAlone : Shape → Bool
  | alone _ => true
  | number _ | words _ => false

inductive Shape.Means (digit : Char → Prop) (keyword line : List Char) : Shape → Command Float → Prop where
  | alone {command : Command Float} (spelled : Spells keyword line) : Means digit keyword line (.alone command) command
  | number {build : Float → Command Float} {numeral : List Char} {n : Float} (follows : Follows keyword numeral line)
      (reads : Numeral digit numeral n) : Means digit keyword line (.number build) (build n)
  | words {build : List Char → Command Float} {text : List Char} (follows : Follows keyword text line)
      (filled : text ≠ []) (single : '\n' ∉ text) : Means digit keyword line (.words build) (build text)

namespace Shape
variable {digit : Char → Prop} {keyword line : List Char} {command said : Command Float}

theorem meansAlone : (alone command).Means digit keyword line said ↔ Spells keyword line ∧ command = said := by
  constructor
  · rintro ⟨spelled⟩
    exact ⟨spelled, rfl⟩
  · rintro ⟨spelled, rfl⟩
    exact .alone spelled

theorem meansNumber {build : Float → Command Float} :
    (number build).Means digit keyword line said ↔
      ∃ n, (∃ numeral, Follows keyword numeral line ∧ Numeral digit numeral n) ∧ build n = said := by
  constructor
  · intro means
    cases means with
    | number follows reads => exact ⟨_, ⟨_, follows, reads⟩, rfl⟩
  · rintro ⟨n, ⟨numeral, follows, reads⟩, rfl⟩
    exact .number follows reads

theorem meansWords {build : List Char → Command Float} :
    (words build).Means digit keyword line said ↔
      ∃ text, (Follows keyword text line ∧ text ≠ [] ∧ '\n' ∉ text) ∧ build text = said := by
  constructor
  · intro means
    cases means with
    | words follows filled single => exact ⟨_, ⟨follows, filled, single⟩, rfl⟩
  · rintro ⟨text, ⟨follows, filled, single⟩, rfl⟩
    exact .words follows filled single

theorem Means.begins {shape : Shape} (means : shape.Means digit keyword line said) :
    ∃ word rest, Spells keyword word ∧ line = word ++ rest := by
  cases means with
  | alone spelled => exact ⟨line, [], spelled, (List.append_nil line).symm⟩
  | number follows _ =>
    obtain ⟨spelled⟩ := follows
    exact ⟨_, _, spelled, rfl⟩
  | words follows _ _ =>
    obtain ⟨spelled⟩ := follows
    exact ⟨_, _, spelled, rfl⟩

theorem Means.blankIff {shape : Shape} (plain : ∀ letter ∈ keyword, letter ∈ letters) (single : ' ' ∉ keyword)
    (means : shape.Means digit keyword line said) : ' ' ∈ line ↔ shape.isAlone = false := by
  cases means with
  | alone spelled => simp only [spellsBlank plain spelled, single, isAlone, reduceCtorEq]
  | number follows _ =>
    obtain ⟨_⟩ := follows
    simp [isAlone]
  | words follows _ _ =>
    obtain ⟨_⟩ := follows
    simp [isAlone]

end Shape

namespace Production

def keywords : Production → List String
  | forward | forwardBy => ["forward"]
  | left | leftBy => ["left"]
  | right | rightBy => ["right"]
  | colorOff => ["color off", "colour off"]
  | color => ["color", "colour"]
  | width => ["width"]
  | say => ["say"]

def shape : Production → Shape
  | forward => .alone (.step 1.0)
  | forwardBy => .number .step
  | left => .alone (.turnLeft 90.0)
  | leftBy => .number .turnLeft
  | right => .alone (.turnRight 90.0)
  | rightBy => .number .turnRight
  | colorOff => .alone (.color none)
  | color => .words fun name => .color (some (String.ofList (Text.lower name)))
  | width => .number .width
  | say => .words fun text => .say (String.ofList text)

def Means (digit : Char → Prop) (p : Production) (line : List Char) (command : Command Float) : Prop :=
  ∃ keyword ∈ p.keywords, p.shape.Means digit keyword.toList line command

theorem readIff (p : Production) (line : List Char) (command : Command Float) :
    p.read? line = some command ↔ p.Means IsDigit line command := by
  cases p with
  | forward | left | right =>
    simp only [read?, Means, keywords, shape, List.mem_singleton, exists_eq_left, Shape.meansAlone,
      Option.ite_none_right_eq_some, Option.some.injEq]
    rw [keywordIff (by decide)]
  | forwardBy | leftBy | rightBy | width =>
    simp only [read?, Means, keywords, shape, List.mem_singleton, exists_eq_left, Shape.meansNumber,
      Option.map_eq_some_iff]
    simp only [numberIff "forward" (by decide), numberIff "left" (by decide),
      numberIff "right" (by decide), numberIff "width" (by decide)]
  | colorOff =>
    simp only [read?, Means, keywords, shape, List.mem_cons, List.not_mem_nil, or_false, exists_eq_or_imp,
      exists_eq_left, Shape.meansAlone, Option.ite_none_right_eq_some, Option.some.injEq, Bool.or_eq_true]
    rw [keywordIff (by decide), keywordIff (by decide), or_and_right]
  | color =>
    simp only [read?, Means, keywords, shape, List.mem_cons, List.not_mem_nil, or_false, exists_eq_or_imp,
      exists_eq_left, Shape.meansWords, Option.map_eq_some_iff]
    simp only [wordsOrIff, or_and_right, exists_or]
  | say =>
    simp only [read?, Means, keywords, shape, List.mem_singleton, exists_eq_left, Shape.meansWords,
      Option.map_eq_some_iff]
    simp only [wordsIff "say" (by decide)]

def Matches (digit : Char → Prop) (p : Production) (line : List Char) : Prop := ∃ command, p.Means digit line command

theorem memOrder : ∀ p, p ∈ order := by
  intro p
  cases p <;> decide

theorem keywordsPlain : ∀ p : Production, ∀ keyword ∈ p.keywords, ∀ letter ∈ keyword.toList, letter ∈ letters := by
  intro p
  cases p <;> decide

theorem keywordsBlank : ∀ p : Production, p ≠ colorOff → ∀ keyword ∈ p.keywords, ' ' ∉ keyword.toList := by
  intro p
  cases p <;> decide

theorem keywordsSentinel : ∀ p : Production, ∀ keyword ∈ p.keywords,
    ¬(keyword.toList <+: "draw mode".toList ∨ "draw mode".toList <+: keyword.toList) := by
  intro p
  cases p <;> decide

def Comparable (p q : Production) : Prop :=
  ∃ keyword ∈ p.keywords, ∃ other ∈ q.keywords, keyword.toList <+: other.toList ∨ other.toList <+: keyword.toList

instance (p q : Production) : Decidable (p.Comparable q) := inferInstanceAs (Decidable (∃ _ ∈ _, ∃ _ ∈ _, _))

theorem comparablePairs : ∀ p q : Production, p.Comparable q →
    p = q ∨ p = colorOff ∧ q = color ∨ p = color ∧ q = colorOff ∨
      p ≠ colorOff ∧ q ≠ colorOff ∧ p.shape.isAlone ≠ q.shape.isAlone := by
  intro p q
  cases p <;> cases q <;> decide

variable {digit : Char → Prop} {line : List Char} {command : Command Float}

/- No line has the form of two productions, but for that of `color off`. -/
theorem matchesOnce {p q : Production} (first : p.Matches digit line) (second : q.Matches digit line) :
    p = q ∨ p = colorOff ∧ q = color ∨ p = color ∧ q = colorOff := by
  obtain ⟨_, keyword, mem, means⟩ := first
  obtain ⟨_, other, mem', means'⟩ := second
  have plain := keywordsPlain p keyword mem
  have plain' := keywordsPlain q other mem'
  obtain ⟨word, rest, spelled, rfl⟩ := means.begins
  obtain ⟨word', rest', spelled', same⟩ := means'.begins
  have comparable := spellsPrefix plain plain' spelled spelled' same
  rcases comparablePairs p q ⟨keyword, mem, other, mem', comparable⟩ with alike | off | off' | ⟨named, named', differ⟩
  · exact .inl alike
  · exact .inr (.inl off)
  · exact .inr (.inr off')
  · have blank := means.blankIff plain (keywordsBlank p named keyword mem)
    have blank' := means'.blankIff plain' (keywordsBlank q named' other mem')
    have alike := blank.symm.trans blank'
    exact absurd (by simpa using alike) differ

theorem offIff :
    colorOff.Means digit line command ↔
      (∃ kind ∈ color.keywords, ∃ off, Follows kind.toList off line ∧ Spells "off".toList off) ∧
        .color none = command := by
  have american : "color off".toList = "color".toList ++ ' ' :: "off".toList := rfl
  have british : "colour off".toList = "colour".toList ++ ' ' :: "off".toList := rfl
  simp only [Means, keywords, shape, List.mem_cons, List.not_mem_nil, or_false, exists_eq_or_imp, exists_eq_left,
    Shape.meansAlone, american, british, followsIff]
  rw [or_and_right]

theorem offIsColor (off : colorOff.Matches digit line) : color.Matches digit line := by
  obtain ⟨_, means⟩ := off
  obtain ⟨⟨kind, known, name, follows, spelled⟩, -⟩ := offIff.mp means
  have filled : name ≠ [] := by
    rintro rfl
    cases spelled
  exact ⟨_, kind, known, .words follows filled (spellsSingle (by decide) spelled)⟩

end Production

theorem findIff {order : List Production} (all : ∀ p, p ∈ order)
    (offFirst : .colorOff ∈ order.takeWhile (· ≠ .color)) (line : List Char) (command : Command Float) :
    order.findSome? (·.read? line) = some command ↔
      ∃ p : Production, p.Means IsDigit line command ∧ (p = .color → ¬Production.colorOff.Matches IsDigit line) := by
  have sound {found : Command Float} (here : order.findSome? (·.read? line) = some found) :
      ∃ p : Production, p.Means IsDigit line found ∧ (p = .color → ¬Production.colorOff.Matches IsDigit line) := by
    obtain ⟨before, p, after, rfl, read, unread⟩ := List.findSome?_eq_some_iff.mp here
    refine ⟨p, (p.readIff line found).mp read, ?_⟩
    rintro rfl ⟨off, means⟩
    have earlier : .colorOff ∈ before := by
      rw [List.takeWhile_append] at offFirst
      split at offFirst
      · simpa using offFirst
      · exact (List.takeWhile_sublist _).subset offFirst
    have none := unread _ earlier
    rw [(Production.colorOff.readIff line off).mpr means] at none
    contradiction
  constructor
  · exact sound
  · rintro ⟨p, means, named⟩
    have read := (p.readIff line command).mpr means
    cases here : order.findSome? (·.read? line) with
    | none =>
      have unread := List.findSome?_eq_none_iff.mp here p (all p)
      rw [read] at unread
      contradiction
    | some found =>
      obtain ⟨q, means', named'⟩ := sound here
      rcases Production.matchesOnce ⟨_, means⟩ ⟨_, means'⟩ with rfl | ⟨rfl, rfl⟩ | ⟨rfl, rfl⟩
      · exact ((p.readIff line found).mpr means').symm.trans read
      · exact absurd ⟨_, means⟩ (named' rfl)
      · exact absurd ⟨_, means'⟩ (named rfl)

theorem actionIff (line : String) (action : Action Float) :
    action? line = some action ↔
      (∃ p : Production, p.Means IsDigit (Text.trim line.toList) action.command ∧
          (p = .color → ¬Production.colorOff.Matches IsDigit (Text.trim line.toList))) ∧
        action.raw = String.ofList (Text.trim line.toList) := by
  have found := findIff Production.memOrder (by decide) (Text.trim line.toList)
  obtain ⟨command, raw⟩ := action
  simp only [action?, command?, Option.map_eq_some_iff, found, Action.mk.injEq, eq_comm (a := raw)]
  constructor
  · rintro ⟨_, means, rfl, same⟩
    exact ⟨means, same⟩
  · rintro ⟨means, same⟩
    exact ⟨_, means, rfl, same⟩

structure Reading (line : String) (text : List Char) : Prop where
  trimmed : Text.Trimmed text
  around : ∃ before after, line.toList = before ++ text ++ after ∧ ∀ c ∈ before ++ after, Text.isBlank c = true
  accepted : (action? line).isSome = true ↔ ∃ p : Production, p.Matches IsDigit text
  action : ∀ action, action? line = some action ↔
    (∃ p : Production, p.Means IsDigit text action.command ∧
        (p = .color → ¬Production.colorOff.Matches IsDigit text)) ∧
      action.raw = String.ofList text
  once : ∀ (digit : Char → Prop) (p q : Production), p.Matches digit text → q.Matches digit text →
    p = q ∨ p = .colorOff ∧ q = .color ∨ p = .color ∧ q = .colorOff
  offIsColor : ∀ digit : Char → Prop, Production.colorOff.Matches digit text → Production.color.Matches digit text
  anyOrder : ∀ order : List Production, (∀ p, p ∈ order) → .colorOff ∈ order.takeWhile (· ≠ .color) →
    order.findSome? (·.read? text) = command? text
  sentinel : isSentinel line = true → action? line = none

theorem acceptedIff (line : String) :
    (action? line).isSome = true ↔ ∃ p : Production, p.Matches IsDigit (Text.trim line.toList) := by
  rw [Option.isSome_iff_exists]
  constructor
  · rintro ⟨action, read⟩
    obtain ⟨⟨p, means, _⟩, _⟩ := (actionIff line action).mp read
    exact ⟨p, _, means⟩
  · rintro ⟨p, command, means⟩
    by_cases named : p = .color → ¬Production.colorOff.Matches IsDigit (Text.trim line.toList)
    · exact ⟨⟨command, _⟩, (actionIff line _).mpr ⟨⟨p, means, named⟩, rfl⟩⟩
    · rw [Classical.not_imp, not_not] at named
      obtain ⟨_, command, off⟩ := named
      exact ⟨⟨command, _⟩, (actionIff line _).mpr ⟨⟨.colorOff, off, nofun⟩, rfl⟩⟩

theorem sentinelUnread {line : String} (sentinel : isSentinel line = true) : action? line = none := by
  rw [isSentinel, beq_iff_eq] at sentinel
  rw [← Option.not_isSome_iff_eq_none, acceptedIff]
  rintro ⟨p, _, keyword, mem, means⟩
  obtain ⟨word, rest, spelled, same⟩ := means.begins
  have drawn := spellsLower (by decide) sentinel
  have whole := same.symm.trans (List.append_nil _).symm
  have comparable := spellsPrefix (Production.keywordsPlain p keyword mem) (by decide) spelled drawn whole
  exact Production.keywordsSentinel p keyword mem comparable

theorem readsByGrammar (line : String) : Reading line (Text.trim line.toList) where
  trimmed := Text.trimTrimmed _
  around := Text.trimAround _
  accepted := acceptedIff line
  action := actionIff line
  once := fun _ _ _ => Production.matchesOnce
  offIsColor := fun _ => Production.offIsColor
  anyOrder := by
    intro order all offFirst
    apply Option.ext
    intro command
    exact (findIff all offFirst _ command).trans (findIff Production.memOrder (by decide) _ command).symm
  sentinel := sentinelUnread

end Line
end TurtleBoard
