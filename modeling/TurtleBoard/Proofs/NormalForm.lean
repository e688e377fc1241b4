import TurtleBoard.Proofs.Decimals
import TurtleBoard.Proofs.Fields
import TurtleBoard.Proofs.Store
import TurtleBoard.Script

/-! The printed form of a script. What lines are read as can be printed: numbers from zero on, texts of one line without
a blank at the end, and names in lower case that are not `off`. A printed command is a line that is read as it again, so
a printed script is read as the script. -/
namespace TurtleBoard

namespace Text

/- Text that stands behind a keyword as it is: neither a line feed nor a trimming takes anything from it. -/
structure Argument (cs : List Char) : Prop where
  filled : cs ≠ []
  single : '\n' ∉ cs
  finish : ∀ c ∈ cs.getLast?, isBlank c = false

theorem argumentVisible (cs : List Char) (filled : cs ≠ []) (visible : ∀ c ∈ cs, isBlank c = false) : Argument cs where
  filled := filled
  single feed := absurd (visible _ feed) (by decide)
  finish c last := visible c (List.mem_of_getLast? last)

theorem argumentOf {word argument : List Char} (trimmed : Trimmed (word ++ ' ' :: argument)) (filled : argument ≠ [])
    (single : '\n' ∉ argument) : Argument argument where
  filled := filled
  single := single
  finish := by
    have last : (word ++ ' ' :: argument).getLast? = argument.getLast? := by
      rw [List.getLast?_append_cons, List.getLast?_cons_of_ne_nil filled]
    exact last ▸ trimmed.finish

theorem Argument.map {cs : List Char} {f : Char → Char} (argument : Argument cs)
    (visible : ∀ c, isBlank (f c) = isBlank c) (feed : ∀ c, f c = '\n' → c = '\n') : Argument (cs.map f) where
  filled := by
    rw [Ne, List.map_eq_nil_iff]
    exact argument.filled
  single mem := by
    obtain ⟨c, inside, same⟩ := List.mem_map.mp mem
    exact argument.single (feed c same ▸ inside)
  finish c last := by
    rw [List.getLast?_map, Option.mem_def, Option.map_eq_some_iff] at last
    obtain ⟨c, last, rfl⟩ := last
    rw [visible]
    exact argument.finish c last

structure Printed (cs : List Char) : Prop extends Trimmed cs where
  filled : cs ≠ []
  single : '\n' ∉ cs

theorem printedFollows (word : List Char) {argument : List Char} (named : word ≠ [])
    (visible : ∀ c ∈ word, isBlank c = false) (behind : Argument argument) : Printed (word ++ ' ' :: argument) where
  start := by
    rw [List.head?_append_of_ne_nil _ named]
    exact fun c first => visible c (List.mem_of_head? first)
  finish := by
    rw [List.getLast?_append_cons, List.getLast?_cons_of_ne_nil behind.filled]
    exact behind.finish
  filled := by simp
  single := by
    rw [List.mem_append, List.mem_cons]
    rintro (front | blank | back)
    · exact (argumentVisible word named visible).single front
    · contradiction
    · exact behind.single back

theorem lowerVisible : ∀ c : Char, isBlank c.toLower = isBlank c :=
  lowerInduct (fun _ same => by rw [same]) (by decide)

theorem lowerFeed : ∀ c : Char, c.toLower = '\n' → c = '\n' :=
  lowerInduct (fun _ same feed => same ▸ feed) (by decide)

theorem lowerTwice (cs : List Char) : lower (lower cs) = lower cs := by
  have twice : ∀ c : Char, c.toLower.toLower = c.toLower :=
    lowerInduct (fun _ same => by rw [same, same]) (by decide)
  rw [lower, lower, List.map_map]
  exact List.map_congr_left fun c _ => twice c

theorem dropReturnPlain {cs : List Char} (plain : cs.getLast? ≠ some '\r') : dropReturn cs = cs := by
  rw [← List.head?_reverse] at plain
  rw [dropReturn]
  split
  · rename_i rest reversed
    rw [reversed] at plain
    exact absurd rfl plain
  · rfl

theorem Printed.keepsReturn {cs : List Char} (printed : Printed cs) : dropReturn cs = cs :=
  dropReturnPlain fun returns => absurd (printed.finish '\r' returns) (by decide)

theorem linesJoined {parts : List (List Char)} (printed : ∀ part ∈ parts, Printed part) (some : parts ≠ []) :
    lines (['\n'].intercalate parts) = parts := by
  have split : fields (· == '\n') (['\n'].intercalate parts) = parts := by
    rw [fieldsSplit, ← List.splitOn_eq_splitOnP]
    exact List.splitOn_intercalate '\n' (fun part mem => (printed part mem).single) some
  have kept : parts.dropLast.map dropReturn = parts.dropLast := by
    rw [List.map_congr_left fun part mem => (printed part (List.mem_of_mem_dropLast mem)).keepsReturn, List.map_id']
  have last := List.getLast?_eq_some_getLast some
  have filled := (printed _ (List.getLast_mem some)).filled
  -- The last line is not empty, so it is a line though no line feed ends it.
  simp only [lines, split, kept, last]
  exact List.dropLast_concat_getLast some

end Text

namespace Number

theorem digitVisible : ∀ c : Char, IsDigit c → Text.isBlank c = false := Text.digitInduct (by decide)

theorem numeralVisible {cs : List Char} {n : Float} (numeral : Numeral IsDigit cs n) :
    ∀ c ∈ cs, Text.isBlank c = false := by
  intro c mem
  cases numeral with
  | whole digits => exact digitVisible c (digits.all c mem)
  | point digits places =>
    rcases List.mem_append.mp mem with front | back
    · exact digitVisible c (digits.all c front)
    · rcases List.mem_cons.mp back with rfl | back
      · rfl
      · exact digitVisible c (places.all c back)

theorem numeralArgument {cs : List Char} {n : Float} (numeral : Numeral IsDigit cs n) : Text.Argument cs := by
  have filled : cs ≠ [] := by
    cases numeral with
    | whole digits => exact digits.filled
    | point _ _ => simp
  exact Text.argumentVisible cs filled (numeralVisible numeral)

theorem numeralMagnitude {cs : List Char} {n : Float} (numeral : Numeral IsDigit cs n)
    (finite : Scalar.isFinite n = true) : Magnitude n := by
  have decimal (c : Nat) (places : Int) (finite : Scalar.isFinite (ofDecimal c places) = true) :
      Magnitude (ofDecimal c places) := by
    by_cases pos : 0 ≤ places
    · rw [ofDecimal, if_pos pos] at finite ⊢
      exact nearestMagnitude finite
    · rw [ofDecimal, if_neg pos] at finite ⊢
      exact nearestMagnitude finite
  cases numeral with
  | whole _ => exact decimal _ _ finite
  | point _ _ => exact decimal _ _ finite

end Number

namespace Command

def number? {α : Type} : Command α → Option α
  | step n | turnLeft n | turnRight n | width n => some n
  | color _ | say _ => none

def Printable : Command Float → Prop
  | step n | turnLeft n | turnRight n | width n => Number.Magnitude n
  | color none => True
  | color (some name) =>
      Text.Argument name.toList ∧ Text.lower name.toList = name.toList ∧ name.toList ≠ "off".toList
  | say text => Text.Argument text.toList

end Command

namespace Line
open Number (IsDigit Numeral Magnitude)

theorem oneMagnitude : Magnitude 1.0 :=
  .finite (m := 2 ^ 52) (e := -52) ⟨by decide, by decide, by decide⟩ rfl

theorem ninetyMagnitude : Magnitude 90.0 :=
  .finite (m := 45 * 2 ^ 47) (e := -46) ⟨by decide, by decide, by decide⟩ rfl

theorem meansPrintable {p : Production} {line : List Char} {command : Command Float} (trimmed : Text.Trimmed line)
    (means : p.Means IsDigit line command) (named : p = .color → ¬Production.colorOff.Matches IsDigit line)
    (finite : ∀ n ∈ command.number?, Scalar.isFinite n = true) : command.Printable := by
  obtain ⟨keyword, mem, means⟩ := means
  cases p with
  | forward =>
    obtain ⟨-, rfl⟩ := Shape.meansAlone.mp means
    exact oneMagnitude
  | left | right =>
    obtain ⟨-, rfl⟩ := Shape.meansAlone.mp means
    exact ninetyMagnitude
  | forwardBy | leftBy | rightBy | width =>
    obtain ⟨n, ⟨numeral, -, reads⟩, rfl⟩ := Shape.meansNumber.mp means
    exact Number.numeralMagnitude reads (finite n rfl)
  | colorOff =>
    obtain ⟨-, rfl⟩ := Shape.meansAlone.mp means
    trivial
  | color =>
    obtain ⟨name, ⟨follows, filled, single⟩, rfl⟩ := Shape.meansWords.mp means
    have off : Text.lower name ≠ "off".toList := by
      intro same
      exact named rfl ⟨_, Production.offIff.mpr ⟨⟨keyword, mem, name, follows, spellsLower (by decide) same⟩, rfl⟩⟩
    obtain ⟨spelled⟩ := follows
    have argument := (Text.argumentOf trimmed filled single).map Text.lowerVisible Text.lowerFeed
    rw [Command.Printable, String.toList_ofList]
    exact ⟨argument, Text.lowerTwice name, off⟩
  | say =>
    obtain ⟨text, ⟨⟨spelled⟩, filled, single⟩, rfl⟩ := Shape.meansWords.mp means
    rw [Command.Printable, String.toList_ofList]
    exact Text.argumentOf trimmed filled single

theorem spellsSelf (keyword : List Char) : Spells keyword keyword :=
  List.forall₂_same.mpr fun _ _ => List.mem_cons_self

theorem spellsLowered {keyword word : List Char}
    (lower : ∀ letter ∈ keyword, ∀ c ∈ spellings letter, c.toLower = letter) (spelled : Spells keyword word) :
    Text.lower word = keyword := by
  induction spelled with
  | nil => rfl
  | cons folds _ ih =>
    have first := lower _ List.mem_cons_self _ folds
    have later := ih fun letter mem => lower letter (List.mem_cons_of_mem _ mem)
    rw [Text.lower, List.map_cons, first]
    exact congrArg (_ :: ·) later

theorem keywordsFilled : ∀ p : Production, ∀ keyword ∈ p.keywords, keyword.toList ≠ [] := by
  intro p
  cases p <;> decide

theorem keywordsVisible : ∀ p : Production, p ≠ .colorOff → ∀ keyword ∈ p.keywords, ∀ c ∈ keyword.toList,
    Text.isBlank c = false := by
  intro p
  cases p <;> decide

structure Written (p : Production) (line : List Char) (command : Command Float) : Prop extends Text.Printed line where
  means : p.Means IsDigit line command
  named : p = .color → ¬Production.colorOff.Matches IsDigit line

section
variable (p : Production) (keyword : String)

theorem writtenFollows {argument : List Char} {command : Command Float} (other : p ≠ .colorOff)
    (mem : keyword ∈ p.keywords) (behind : Text.Argument argument)
    (means : p.shape.Means IsDigit keyword.toList (keyword.toList ++ ' ' :: argument) command)
    (named : p = .color → ¬Production.colorOff.Matches IsDigit (keyword.toList ++ ' ' :: argument)) :
    Written p (keyword.toList ++ ' ' :: argument) command where
  toPrinted := Text.printedFollows _ (keywordsFilled p keyword mem) (keywordsVisible p other keyword mem) behind
  means := ⟨keyword, mem, means⟩
  named := named

theorem writtenNumber {build : Float → Command Float} {numeral : List Char} {n : Float} (mem : keyword ∈ p.keywords)
    (shape : p.shape = .number build) (reads : Numeral IsDigit numeral n) :
    Written p (keyword.toList ++ ' ' :: numeral) (build n) := by
  have means : p.shape.Means IsDigit keyword.toList (keyword.toList ++ ' ' :: numeral) (build n) := by
    rw [shape]
    exact .number (.blank (spellsSelf _)) reads
  refine writtenFollows p keyword ?_ mem (Number.numeralArgument reads) means ?_
  · rintro rfl
    contradiction
  · rintro rfl
    contradiction

theorem writtenWords {build : List Char → Command Float} {text : List Char} (mem : keyword ∈ p.keywords)
    (shape : p.shape = .words build) (argument : Text.Argument text)
    (named : p = .color → ¬Production.colorOff.Matches IsDigit (keyword.toList ++ ' ' :: text)) :
    Written p (keyword.toList ++ ' ' :: text) (build text) := by
  have means : p.shape.Means IsDigit keyword.toList (keyword.toList ++ ' ' :: text) (build text) := by
    rw [shape]
    exact .words (.blank (spellsSelf _)) argument.filled argument.single
  refine writtenFollows p keyword ?_ mem argument means named
  rintro rfl
  contradiction

end

/- A color that is not named `off` is not printed as if it were. -/
theorem namedColor {name : List Char} (argument : Text.Argument name) (lower : Text.lower name = name)
    (other : name ≠ "off".toList) : ¬Production.colorOff.Matches IsDigit ("color".toList ++ ' ' :: name) := by
  rintro ⟨_, off⟩
  obtain ⟨⟨kind, known, word, follows, off⟩, -⟩ := Production.offIff.mp off
  have filled : word ≠ [] := by
    rintro rfl
    cases off
  have single := spellsSingle (by decide) off
  have spelled : Follows "color".toList name ("color".toList ++ ' ' :: name) := .blank (spellsSelf _)
  -- Read as a color, the line has one name: the one that is printed, and the one spelled `off`.
  have read := (wordsOrIff _ name).mpr (.inl ⟨spelled, argument.filled, argument.single⟩)
  have again := (wordsOrIff ("color".toList ++ ' ' :: name) word).mpr (by
    rcases List.mem_pair.mp known with rfl | rfl
    · exact .inl ⟨follows, filled, single⟩
    · exact .inr ⟨follows, filled, single⟩)
  obtain rfl : name = word := Option.some.inj (read.symm.trans again)
  exact other (lower.symm.trans (spellsLowered (by decide) off))

theorem written {command : Command Float} (printable : command.Printable) :
    ∃ p, Written p command.text.toList command := by
  cases command with
  | step n =>
    have reads := Number.readText printable
    rw [Command.text, String.toList_append]
    exact ⟨_, writtenNumber .forwardBy "forward" (by decide) rfl reads⟩
  | turnLeft n =>
    have reads := Number.readText printable
    rw [Command.text, String.toList_append]
    exact ⟨_, writtenNumber .leftBy "left" (by decide) rfl reads⟩
  | turnRight n =>
    have reads := Number.readText printable
    rw [Command.text, String.toList_append]
    exact ⟨_, writtenNumber .rightBy "right" (by decide) rfl reads⟩
  | width n =>
    have reads := Number.readText printable
    rw [Command.text, String.toList_append]
    exact ⟨_, writtenNumber .width "width" (by decide) rfl reads⟩
  | color name =>
    cases name with
    | none =>
      have off := Text.argumentVisible "off".toList (by decide) (by decide)
      have printed := Text.printedFollows "color".toList (by decide) (by decide) off
      exact ⟨.colorOff, printed, ⟨"color off", by decide, .alone (spellsSelf _)⟩, nofun⟩
    | some name =>
      obtain ⟨argument, lower, other⟩ := printable
      have line := writtenWords .color "color" (by decide) rfl argument fun _ => namedColor argument lower other
      rw [lower, String.ofList_toList] at line
      rw [Command.text, String.toList_append]
      exact ⟨.color, line⟩
  | say text =>
    have line := writtenWords .say "say" (by decide) rfl printable nofun
    rw [String.ofList_toList] at line
    rw [Command.text, String.toList_append]
    exact ⟨.say, line⟩

theorem Written.read {p : Production} {line : String} {command : Command Float}
    (written : Written p line.toList command) : action? line = some ⟨command, line⟩ := by
  rw [actionIff, Text.trimOfTrimmed written.toTrimmed, String.ofList_toList]
  exact ⟨⟨p, written.means, written.named⟩, rfl⟩

theorem actionWritten {command : Command Float} (printable : command.Printable) :
    action? command.text = some ⟨command, command.text⟩ := by
  obtain ⟨p, line⟩ := written printable
  exact line.read

theorem actionPrintable {line : String} {action : Action Float} (read : action? line = some action)
    (finite : ∀ n ∈ action.command.number?, Scalar.isFinite n = true) : action.command.Printable := by
  obtain ⟨⟨p, means, named⟩, -⟩ := (actionIff line action).mp read
  exact meansPrintable (Text.trimTrimmed _) means named finite

end Line

namespace Script

def canonical (actions : List (Action Float)) : String :=
  "\n".intercalate ("draw mode" :: actions.map (·.command.text))

theorem canonicalLines {actions : List (Action Float)} (printable : ∀ action ∈ actions, action.command.Printable) :
    (Text.lines (canonical actions).toList).map String.ofList = "draw mode" :: actions.map (·.command.text) := by
  have sentinel : Text.Printed "draw mode".toList :=
    Text.printedFollows "draw".toList (by decide) (by decide)
      (Text.argumentVisible "mode".toList (by decide) (by decide))
  have printed : ∀ part ∈ ("draw mode" :: actions.map (·.command.text)).map String.toList, Text.Printed part := by
    simp only [List.map_cons, List.map_map, List.forall_mem_cons, List.forall_mem_map]
    refine ⟨sentinel, fun action mem => ?_⟩
    obtain ⟨p, line⟩ := Line.written (printable action mem)
    exact line.toPrinted
  have feed : "\n".toList = ['\n'] := rfl
  rw [canonical, String.toList_intercalate, feed, Text.linesJoined printed (List.cons_ne_nil _ _), List.map_map]
  exact (List.map_congr_left fun line _ => String.ofList_toList).trans (List.map_id _)

theorem parseCanonical {actions : List (Action Float)} (printable : ∀ action ∈ actions, action.command.Printable) :
    parse (canonical actions) = actions.map fun action => ⟨action.command, action.command.text⟩ := by
  have sentinel : Line.isSentinel "draw mode" = true := by decide
  rw [parse, canonicalLines printable, ofLines, List.dropWhile_cons_of_neg (by rw [sentinel]; decide), List.drop_one,
    List.tail_cons, List.filterMap_map]
  calc
    actions.filterMap (Line.action? ∘ (·.command.text)) =
        actions.filterMap fun action => some ⟨action.command, action.command.text⟩ :=
      List.filterMap_congr fun action mem => Line.actionWritten (printable action mem)
    _ = actions.map fun action => ⟨action.command, action.command.text⟩ := by rw [List.filterMap_eq_map']

theorem canonicalNormal (script : String)
    (finite : ∀ action ∈ parse script, ∀ n ∈ action.command.number?, Scalar.isFinite n = true) :
    (parse (canonical (parse script))).map (·.command) = (parse script).map (·.command) ∧
      canonical (parse (canonical (parse script))) = canonical (parse script) := by
  have printable : ∀ action ∈ parse script, action.command.Printable := by
    intro action mem
    obtain ⟨line, _, read⟩ := List.mem_filterMap.mp mem
    exact Line.actionPrintable read (finite action mem)
  rw [parseCanonical printable]
  refine ⟨by simp only [List.map_map]; rfl, ?_⟩
  simp only [canonical, List.map_map]
  rfl

theorem canonicalNormalMixed :
    (∀ action ∈ parse "draw mode\nFORWARD\r\nright 22.50\ncolour Dark Red\nsay  color off\r",
        ∀ n ∈ action.command.number?, Scalar.isFinite n = true) ∧
      (parse (canonical (parse "draw mode\nFORWARD\r\nright 22.50\ncolour Dark Red\nsay  color off\r"))).map
          (·.command) =
        [.step 1.0, .turnRight 22.5, .color (some "dark red"), .say " color off"] := by
  have finite : ∀ action ∈ parse "draw mode\nFORWARD\r\nright 22.50\ncolour Dark Red\nsay  color off\r",
      ∀ n ∈ action.command.number?, Scalar.isFinite n = true := by decide +kernel
  exact ⟨finite, (canonicalNormal _ finite).1.trans (by decide +kernel)⟩

end Script
end TurtleBoard
