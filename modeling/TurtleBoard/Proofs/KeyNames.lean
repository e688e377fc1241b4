import Mathlib.Data.List.Forall2
import Mathlib.Data.Nat.Bits
import TurtleBoard.Key
import TurtleBoard.Menu
import TurtleBoard.Proofs.Fields

/-! The names of the keys in the menu bar. An item is split at its brackets, and every second part is taken for the name
of a key. That shows the item as it is, its bracketed names in bold, unless a bracket is itself a key: six bindings have
a bracket, one each, and it makes names of what stands behind it. The deed is then in bold, in brackets that the item
does not have. -/
namespace TurtleBoard

namespace Menu

structure Bare (text : List Char) : Prop where
  filled : text ≠ []
  inside : ∀ c ∈ text, isBracket c = false

theorem bareOf {text : List Char} (spelled : (!text.isEmpty && text.all (!isBracket ·)) = true) : Bare text := by
  simp only [Bool.and_eq_true, Bool.not_eq_true', List.isEmpty_eq_false_iff, List.all_eq_true] at spelled
  exact ⟨spelled.1, spelled.2⟩

theorem Bare.uncounted {text : List Char} (bare : Bare text) : text.countP isBracket = 0 :=
  List.countP_eq_zero.mpr fun c mem => Bool.eq_false_iff.mp (bare.inside c mem)

theorem bracketIff {c : Char} : isBracket c = true ↔ c = '[' ∨ c = ']' := by
  simp only [isBracket, Bool.or_eq_true, beq_iff_eq]

end Menu

namespace Key
open Menu

def Bindable (binding : String) : Prop := ∃ key : Key, key.isBinding binding = true

theorem shiftBindable : Bindable "Shift" := ⟨{ code := .modifier .leftShift }, rfl⟩

theorem tabBindable : Bindable "Tab" := ⟨{ code := .tab }, rfl⟩

def bracketBindings : List String := ["[", "]", "Alt-[", "Alt-]", "Ctrl-[", "Ctrl-]"]

theorem bracketsBindable : ∀ binding ∈ bracketBindings, Bindable binding := by
  simp only [bracketBindings, List.forall_mem_cons, List.not_mem_nil, false_implies, implies_true, and_true]
  exact ⟨⟨{ code := .char '[' }, rfl⟩, ⟨{ code := .char ']' }, rfl⟩,
    ⟨{ code := .char '[', modifiers := { alt := true } }, rfl⟩,
    ⟨{ code := .char ']', modifiers := { alt := true } }, rfl⟩,
    ⟨{ code := .char '[', modifiers := { control := true } }, rfl⟩,
    ⟨{ code := .char ']', modifiers := { control := true } }, rfl⟩⟩

theorem bracketOnce : ∀ binding ∈ bracketBindings, binding.toList.countP isBracket = 1 := by
  decide

theorem namedBare {cs : List Char} {codes : List KeyCode} (named : KeyCode.named? (String.ofList cs) = some codes) :
    Bare cs := by
  have word {name : String} (same : String.ofList cs = name)
      (spelled : (!name.toList.isEmpty && name.toList.all (!isBracket ·)) = true) : Bare cs := by
    have list : cs = name.toList := by rw [← same, String.toList_ofList]
    rw [list]
    exact bareOf spelled
  rw [KeyCode.named?.eq_def] at named
  split at named
  all_goals first | exact word ‹_› rfl | contradiction

theorem numberBare {number : List Char} {n : Nat} (read : Text.natBelow? 256 number = some n) :
    ∀ c ∈ number, isBracket c = false := by
  have digits : (Text.dropPlus number).all Char.isDigit = true := by
    simp only [Text.natBelow?, Option.ite_none_right_eq_some, Number.allDigits, Bool.and_eq_true] at read
    exact read.1.1.2
  have digit : ∀ c ∈ Text.dropPlus number, isBracket c = false := by
    intro c mem
    apply Bool.eq_false_iff.mpr
    intro bracket
    have among := List.all_eq_true.mp digits c mem
    rcases bracketIff.mp bracket with rfl | rfl <;> contradiction
  intro c mem
  rw [Text.dropPlus.eq_def] at digit
  split at digit
  · rcases List.mem_cons.mp mem with rfl | mem
    · rfl
    · exact digit c mem
  · exact digit c mem

theorem plainNames {cs : List Char} {key : Key} (named : key.isPlain cs = true) : Bare cs ∨ ∃ c, cs = [c] := by
  have found : KeyCode.ofBinding cs ≠ [] := by
    intro none
    rw [isPlain, none] at named
    contradiction
  rw [KeyCode.ofBinding.eq_def] at found
  split at found
  · rename_i word
    exact .inl (namedBare word)
  · split at found
    · exact .inr ⟨'F', rfl⟩
    · rename_i number _ _
      cases read : Text.natBelow? 256 number with
      | none =>
        rw [read] at found
        exact absurd rfl found
      | some n =>
        have inside := numberBare read
        refine .inl ⟨List.cons_ne_nil _ _, ?_⟩
        intro c mem
        rcases List.mem_cons.mp mem with rfl | mem
        · rfl
        · exact inside c mem
    · exact .inr ⟨_, rfl⟩
    · exact absurd rfl found

theorem modifiedNames {binding start : String} {rest : List Char} {key : Key} (named : key.isPlain rest = true)
    (spelled : binding.toList = start.toList ++ rest) (bare : start.toList.all (!isBracket ·) = true) :
    Bare binding.toList ∨ binding ∈ [start ++ "[", start ++ "]"] := by
  have outside : ∀ c ∈ start.toList, isBracket c = false := by
    simpa only [List.all_eq_true, Bool.not_eq_true'] using bare
  have joined (inside : ∀ c ∈ rest, isBracket c = false) (filled : rest ≠ []) : Bare binding.toList := by
    rw [spelled]
    refine ⟨List.append_ne_nil_of_right_ne_nil _ filled, ?_⟩
    intro c mem
    exact (List.mem_append.mp mem).elim (outside c) (inside c)
  rcases plainNames named with plain | ⟨c, rfl⟩
  · exact .inl (joined plain.inside plain.filled)
  · cases bracket : isBracket c with
    | false =>
      refine .inl (joined ?_ (List.cons_ne_nil _ _))
      intro d mem
      rw [List.mem_singleton.mp mem, bracket]
    | true =>
      have whole : binding = start ++ String.singleton c := by
        apply String.toList_injective
        rw [spelled, String.toList_append, String.toList_singleton]
      rw [whole]
      rcases bracketIff.mp bracket with rfl | rfl
      · exact .inr List.mem_cons_self
      · exact .inr (List.mem_cons_of_mem _ List.mem_cons_self)

theorem bindableNames {binding : String} (bindable : Bindable binding) :
    Bare binding.toList ∨ binding ∈ bracketBindings := by
  obtain ⟨key, named⟩ := bindable
  rw [isBinding] at named
  split at named
  · rename_i rest alt
    have plain := (Bool.and_eq_true_iff.mp named).2
    refine (modifiedNames plain (Text.dropPrefixIff.mp alt) rfl).imp_right ?_
    exact fun mem => List.mem_of_mem_drop (i := 2) (List.mem_of_mem_take (i := 2) mem)
  · split at named
    · rename_i rest control
      have plain := (Bool.and_eq_true_iff.mp named).2
      refine (modifiedNames plain (Text.dropPrefixIff.mp control) rfl).imp_right ?_
      exact fun mem => List.mem_of_mem_drop (i := 4) mem
    · split at named
      · rename_i shift
        rw [shift]
        exact .inl (bareOf rfl)
      · have plain := (Bool.and_eq_true_iff.mp named).2
        have whole : binding.toList = "".toList ++ binding.toList := rfl
        refine (modifiedNames plain whole rfl).imp_right ?_
        exact fun mem => List.mem_of_mem_take (i := 2) mem

end Key

namespace Menu

structure Label where
  names : List String
  deed : String

def keySpan (name : List Char) : Span := ⟨{ bold := true }, '[' :: (name ++ [']'])⟩

def deedSpan (deed : List Char) : Span := ⟨{ dim := true }, deed⟩

namespace Label

def text (label : Label) : List Char :=
  label.names.flatMap (fun name => '[' :: (name.toList ++ [']'])) ++ label.deed.toList

def spans (label : Label) : List Span :=
  label.names.map (fun name => keySpan name.toList) ++ [deedSpan label.deed.toList]

end Label

def labels (keys : KeyBindings) (reportsReleases : Bool) : List Label := [
  ⟨[keys.accelerateHold], if reportsReleases then " hold fast" else " toggle fast"⟩,
  ⟨[keys.accelerateLatch], " fast until a stride lands"⟩,
  ⟨[keys.quit, "Esc"], " quit"⟩]

theorem itemsLabels (keys : KeyBindings) (reportsReleases : Bool) :
    (items keys reportsReleases).map String.toList = (labels keys reportsReleases).map Label.text := by
  cases reportsReleases with
  | false => simp [items, labels, Label.text]
  | true => simp [items, labels, Label.text]

theorem styledAppend (isKey : Bool) (before parts : List (List Char)) :
    styled isKey (before ++ parts) = styled isKey before ++ styled (isKey ^^ before.length.bodd) parts := by
  induction before generalizing isKey with
  | nil => simp only [List.nil_append, styled, List.length_nil, Nat.bodd_zero, Bool.xor_false]
  | cons part before ih =>
    have turned : (!isKey ^^ before.length.bodd) = (isKey ^^ (part :: before).length.bodd) := by
      rw [List.length_cons, Nat.bodd_succ]
      cases isKey <;> simp
    rw [List.cons_append, styled, styled, ih, turned]
    split
    · rfl
    · split <;> rfl

theorem spansName {name : List Char} (bare : Bare name) (rest : List Char) :
    spans ('[' :: (name ++ ']' :: rest)) = keySpan name :: spans rest := by
  have opened : Text.fields isBracket ('[' :: (name ++ ']' :: rest)) = [] :: name :: Text.fields isBracket rest := by
    rw [← List.nil_append ('[' :: _), Text.fieldsNext _ (List.forall_mem_nil _) rfl,
      Text.fieldsNext _ bare.inside rfl]
  have shown : name.isEmpty = false := List.isEmpty_eq_false_iff.mpr bare.filled
  simp only [spans, opened, styled, List.isEmpty_nil, shown, Bool.not_false, Bool.not_true, if_true, if_false,
    Bool.false_eq_true, keySpan]

theorem spansDeed {deed : List Char} (bare : Bare deed) : spans deed = [deedSpan deed] := by
  have shown : deed.isEmpty = false := List.isEmpty_eq_false_iff.mpr bare.filled
  simp only [spans, Text.fieldsLast bare.inside, styled, shown, if_false, Bool.false_eq_true, deedSpan]

theorem textCons (name : String) (names : List String) (deed : String) :
    Label.text ⟨name :: names, deed⟩ = '[' :: (name.toList ++ ']' :: Label.text ⟨names, deed⟩) := by
  simp only [Label.text, List.flatMap_cons, List.cons_append, List.append_assoc, List.nil_append]

theorem spansBare {names : List String} {deed : String} (bare : ∀ name ∈ names, Bare name.toList)
    (bareDeed : Bare deed.toList) : spans (Label.text ⟨names, deed⟩) = Label.spans ⟨names, deed⟩ := by
  induction names with
  | nil => exact spansDeed bareDeed
  | cons name names ih =>
    have later := ih fun name mem => bare name (List.mem_cons_of_mem _ mem)
    rw [textCons, spansName (bare name List.mem_cons_self), later]
    rfl

theorem countBrackets (names : List String) {deed : String} (bare : Bare deed.toList) :
    (Label.text ⟨names, deed⟩).countP isBracket =
      2 * names.length + (names.flatMap String.toList).countP isBracket := by
  induction names with
  | nil => exact bare.uncounted
  | cons name names ih =>
    rw [textCons, List.countP_cons_of_pos rfl, List.countP_append, List.countP_cons_of_pos rfl, ih, List.length_cons,
      List.flatMap_cons, List.countP_append]
    omega

theorem textEnds (name : String) (names : List String) (deed : String) :
    ∃ front, Label.text ⟨name :: names, deed⟩ = front ++ ']' :: deed.toList := by
  induction names generalizing name with
  | nil => exact ⟨'[' :: name.toList, textCons name [] deed⟩
  | cons second names ih =>
    obtain ⟨front, ended⟩ := ih second
    refine ⟨'[' :: (name.toList ++ ']' :: front), ?_⟩
    rw [textCons, ended]
    simp only [List.cons_append, List.append_assoc]

/- Where the names have an odd number of brackets, what stands behind the last one is taken for a name. -/
theorem spansStray {name : String} {names : List String} {deed : String} (bare : Bare deed.toList)
    (stray : (((name :: names).flatMap String.toList).countP isBracket).bodd = true) :
    ∃ before, spans (Label.text ⟨name :: names, deed⟩) = before ++ [keySpan deed.toList] := by
  obtain ⟨front, ended⟩ := textEnds name names deed
  have count := countBrackets (name :: names) bare
  rw [ended, List.countP_append, List.countP_cons_of_pos rfl, bare.uncounted, Nat.zero_add] at count
  have odd : (Text.fields isBracket front).length.bodd = true := by
    rw [Text.fieldsCount, count, Nat.bodd_add, stray, Nat.bodd_mul]
    rfl
  have shown : deed.toList.isEmpty = false := List.isEmpty_eq_false_iff.mpr bare.filled
  refine ⟨styled false (Text.fields isBracket front), ?_⟩
  rw [ended, spans, Text.fieldsAppend _ _ rfl, Text.fieldsLast bare.inside, styledAppend, odd]
  simp only [styled, shown, if_false, if_true, Bool.false_eq_true, Bool.false_xor, keySpan]

def inks (spans : List Span) : List (Char × Style) :=
  spans.flatMap fun span => span.text.map fun c => (c, span.style)

def printed (spans : List Span) : List Char := spans.flatMap Span.text

structure Label.ShownBy (label : Label) (shown : List Span) : Prop where
  text : printed shown = label.text
  inked : inks shown = inks label.spans

theorem printedSpans (label : Label) : printed label.spans = label.text := by
  rw [printed, Label.spans, List.flatMap_append, List.flatMap_map, List.flatMap_singleton]
  rfl

structure Label.Keyed (label : Label) (binding : String) : Prop where
  bindable : Key.Bindable binding
  names : ∃ others, label.names = binding :: others ∧ ∀ name ∈ others, Bare name.toList
  deed : Bare label.deed.toList

theorem Label.Keyed.bare {label : Label} {binding : String} (keyed : label.Keyed binding)
    (plain : binding ∉ Key.bracketBindings) : label.ShownBy (Menu.spans label.text) := by
  obtain ⟨others, names, bare⟩ := keyed.names
  have named : Bare binding.toList := (Key.bindableNames keyed.bindable).resolve_right plain
  have same : Menu.spans label.text = label.spans := by
    obtain ⟨_, deed⟩ := label
    cases names
    exact spansBare (List.forall_mem_cons.mpr ⟨named, bare⟩) keyed.deed
  rw [same]
  exact ⟨printedSpans label, rfl⟩

theorem Label.Keyed.stray {label : Label} {binding : String} (keyed : label.Keyed binding)
    (bracket : binding ∈ Key.bracketBindings) :
    ∃ before, Menu.spans label.text = before ++ [keySpan label.deed.toList] := by
  obtain ⟨others, names, bare⟩ := keyed.names
  obtain ⟨_, deed⟩ := label
  cases names
  apply spansStray keyed.deed
  have rest : (others.flatMap String.toList).countP isBracket = 0 := by
    apply List.countP_eq_zero.mpr
    intro c mem
    obtain ⟨name, among, mem⟩ := List.mem_flatMap.mp mem
    exact Bool.eq_false_iff.mp ((bare name among).inside c mem)
  rw [List.flatMap_cons, List.countP_append, rest, Key.bracketOnce binding bracket]
  rfl

theorem Label.Keyed.notShown {label : Label} {binding : String} (keyed : label.Keyed binding)
    (bracket : binding ∈ Key.bracketBindings) : printed (Menu.spans label.text) ≠ label.text := by
  obtain ⟨before, shown⟩ := keyed.stray bracket
  intro same
  have closes : (printed (Menu.spans label.text)).getLast? = some ']' := by
    rw [shown, printed, List.flatMap_append, List.flatMap_singleton, keySpan, ← List.cons_append, ← List.append_assoc]
    exact List.getLast?_concat
  rw [same, text, List.getLast?_append, List.getLast?_eq_some_getLast keyed.deed.filled, Option.some_or] at closes
  have outside := keyed.deed.inside _ (List.getLast_mem keyed.deed.filled)
  rw [Option.some_inj.mp closes] at outside
  contradiction

def bindings (keys : KeyBindings) : List String := [keys.accelerateHold, keys.accelerateLatch, keys.quit]

theorem bindingsIff {keys : KeyBindings} {P : String → Prop} :
    (∀ binding ∈ bindings keys, P binding) ↔ P keys.accelerateHold ∧ P keys.accelerateLatch ∧ P keys.quit := by
  simp only [bindings, List.forall_mem_cons, List.not_mem_nil, false_implies, implies_true, and_true]

theorem labelsKeyed {keys : KeyBindings} (reportsReleases : Bool)
    (bindable : ∀ binding ∈ bindings keys, Key.Bindable binding) :
    List.Forall₂ Label.Keyed (labels keys reportsReleases) (bindings keys) := by
  obtain ⟨hold, latch, quit⟩ := bindingsIff.mp bindable
  have alone {binding : String} : ∃ others, [binding] = binding :: others ∧ ∀ name ∈ others, Bare name.toList :=
    ⟨[], rfl, List.forall_mem_nil _⟩
  have escape : ∃ others, [keys.quit, "Esc"] = keys.quit :: others ∧ ∀ name ∈ others, Bare name.toList :=
    ⟨["Esc"], rfl, List.forall_mem_singleton.mpr (bareOf rfl)⟩
  have holds : Bare (if reportsReleases then " hold fast" else " toggle fast").toList := by
    cases reportsReleases <;> exact bareOf rfl
  have latches : Bare " fast until a stride lands".toList := bareOf rfl
  have quits : Bare " quit".toList := bareOf rfl
  exact .cons ⟨hold, alone, holds⟩ (.cons ⟨latch, alone, latches⟩ (.cons ⟨quit, escape, quits⟩ .nil))

/- The menu bar has one item for each binding. It shows the item as it is, the names of the keys in bold, just when the
binding has no bracket; else what the keys do is in bold, in brackets that the item does not have. -/
theorem barNamesKeys {keys : KeyBindings} (reportsReleases : Bool)
    (bindable : ∀ binding ∈ bindings keys, Key.Bindable binding) :
    (items keys reportsReleases).map String.toList = (labels keys reportsReleases).map Label.text ∧
    List.Forall₂ (fun label binding =>
        (label.ShownBy (spans label.text) ↔ binding ∉ Key.bracketBindings) ∧
        (binding ∈ Key.bracketBindings → ∃ before, spans label.text = before ++ [keySpan label.deed.toList]))
      (labels keys reportsReleases) (bindings keys) := by
  refine ⟨itemsLabels keys reportsReleases, (labelsKeyed reportsReleases bindable).imp ?_⟩
  intro label binding keyed
  refine ⟨⟨?_, keyed.bare⟩, keyed.stray⟩
  intro shown bracket
  exact keyed.notShown bracket shown.text

theorem barNamesDefaultKeys :
    (∀ binding ∈ bindings {}, Key.Bindable binding) ∧
    List.Forall₂ (fun label binding =>
        (label.ShownBy (spans label.text) ↔ binding ∉ Key.bracketBindings) ∧
        (binding ∈ Key.bracketBindings → ∃ before, spans label.text = before ++ [keySpan label.deed.toList]))
      (labels {} true) (bindings {}) := by
  have bindable : ∀ binding ∈ bindings {}, Key.Bindable binding :=
    bindingsIff.mpr ⟨Key.shiftBindable, Key.tabBindable, { code := .char 'q' }, rfl⟩
  exact ⟨bindable, (barNamesKeys true bindable).2⟩

theorem bracketForQuitUnnamed :
    (∀ binding ∈ bindings { quit := "[" }, Key.Bindable binding) ∧
    "[[][Esc] quit" ∈ items { quit := "[" } true ∧
    spans "[[][Esc] quit".toList = [deedSpan "Esc".toList, keySpan " quit".toList] ∧
    printed (spans "[[][Esc] quit".toList) = "Esc[ quit]".toList := by
  have bracket : Key.Bindable "[" := Key.bracketsBindable "[" List.mem_cons_self
  have bindable : ∀ binding ∈ bindings { quit := "[" }, Key.Bindable binding :=
    bindingsIff.mpr ⟨Key.shiftBindable, Key.tabBindable, bracket⟩
  exact ⟨bindable, List.mem_of_getElem? (i := 2) rfl, rfl, rfl⟩

end Menu
end TurtleBoard
