import Mathlib.Tactic.SplitIfs
import TurtleBoard.Json.Reader

/-! The tokens of a text: marks, strings, and runs of other characters. Blanks end a token and are left out, so blanks
that are added where a token is over do not show. Each token is found again at the front of the text that has it. -/
namespace TurtleBoard.Json

inductive Token where
  | mark (c : Option Char)
  | quoted (raw : List (Option Char))
  | bare (raw : List (Option Char))
  deriving DecidableEq

def isMark (c : Option Char) : Bool :=
  c = some '[' || c = some ']' || c = some '\x7b' || c = some '\x7d' || c = some ':' || c = some ','

def isBare (c : Option Char) : Bool := !(isBlank c || isMark c || c = some '"')

/- Where a text has got to: between tokens, in a bare one, in a string, or behind a backslash there. -/
inductive Place where
  | between | bare | inside | escaped
  deriving DecidableEq

def Place.next (p : Place) (c : Option Char) : Place :=
  match p with
  | .inside => if c = some '"' then .between else if c = some '\\' then .escaped else .inside
  | .escaped => .inside
  | .between | .bare => if c = some '"' then .inside else if isBare c then .bare else .between

def opens (c : Option Char) (raw : List (Option Char)) (ts : List Token) : List Token :=
  if c = some '"' then .quoted raw :: ts
  else if isBare c then .bare (c :: raw) :: ts
  else if isMark c then .mark c :: ts
  else ts

def tokensFrom (p : Place) : List (Option Char) → List (Option Char) × List Token
  | [] => ([], [])
  | c :: cs =>
      let (raw, ts) := tokensFrom (p.next c) cs
      match p with
      | .inside | .escaped => (c :: raw, ts)
      | .bare => if isBare c then (c :: raw, ts) else ([], opens c raw ts)
      | .between => ([], opens c raw ts)

def tokens (cs : List (Option Char)) : List Token := (tokensFrom .between cs).2

def Ends (cs : List (Option Char)) : Prop := ∀ c ∈ cs.head?, isBare c = false

section
variable {c : Option Char} {cs : List (Option Char)}

theorem blankNotBare (blank : isBlank c = true) : isBare c = false := by simp [isBare, blank]

theorem markNotBare (mark : isMark c = true) : isBare c = false := by simp [isBare, mark]

theorem blankNotMark (blank : isBlank c = true) : isMark c = false := by
  revert blank
  simp only [isBlank, isMark, Bool.or_eq_true, decide_eq_true_eq]
  rintro (((rfl | rfl) | rfl) | rfl) <;> rfl

theorem tokensBlank (blank : isBlank c = true) : tokens (c :: cs) = tokens cs := by
  have quote : c ≠ some '"' := by
    rintro rfl
    contradiction
  have next : Place.between.next c = .between := by
    simp only [Place.next, quote, blankNotBare blank, Bool.false_eq_true, if_false]
  simp only [tokens, tokensFrom, next, opens, quote, blankNotBare blank, blankNotMark blank, Bool.false_eq_true,
    if_false]

theorem tokensMark (mark : isMark c = true) : tokens (c :: cs) = .mark c :: tokens cs := by
  have quote : c ≠ some '"' := by
    rintro rfl
    contradiction
  have next : Place.between.next c = .between := by
    simp only [Place.next, quote, markNotBare mark, Bool.false_eq_true, if_false]
  simp only [tokens, tokensFrom, next, opens, quote, markNotBare mark, mark, Bool.false_eq_true, if_false, if_true]

end

theorem tokensSkip (cs : List (Option Char)) : tokens (skipBlanks cs) = tokens cs := by
  induction cs with
  | nil => rfl
  | cons c cs ih =>
    rw [skipBlanks, List.dropWhile_cons]
    split
    · rename_i blank
      rw [tokensBlank blank]
      exact ih
    · rfl

theorem betweenNone (cs : List (Option Char)) : tokensFrom .between cs = ([], tokens cs) := by
  cases cs <;> rfl

theorem bareEnds {cs : List (Option Char)} (ends : Ends cs) : tokensFrom .bare cs = ([], tokens cs) := by
  cases cs with
  | nil => rfl
  | cons c cs =>
    have ended : isBare c = false := ends c rfl
    simp only [tokens, tokensFrom, ended, Bool.false_eq_true, if_false]
    rfl

theorem bareNext {p : Place} {c : Option Char} (bare : isBare c = true) (outside : p = .between ∨ p = .bare) :
    p.next c = .bare := by
  have quote : c ≠ some '"' := by
    rintro rfl
    contradiction
  rcases outside with rfl | rfl <;> simp only [Place.next, quote, bare, if_false, if_true]

theorem tokensBare {raw rest : List (Option Char)} (filled : raw ≠ []) (bare : ∀ c ∈ raw, isBare c = true)
    (ends : Ends rest) : tokens (raw ++ rest) = .bare raw :: tokens rest := by
  have later {raw : List (Option Char)} (bare : ∀ c ∈ raw, isBare c = true) :
      tokensFrom .bare (raw ++ rest) = (raw, tokens rest) := by
    induction raw with
    | nil => exact bareEnds ends
    | cons c raw ih =>
      have here := bare c List.mem_cons_self
      rw [List.cons_append, tokensFrom, bareNext here (.inr rfl), ih fun d mem => bare d (List.mem_cons_of_mem _ mem)]
      simp only [here, if_true]
  obtain ⟨c, raw, rfl⟩ := List.exists_cons_of_ne_nil filled
  have here := bare c List.mem_cons_self
  have quote : c ≠ some '"' := by
    rintro rfl
    contradiction
  rw [tokens, List.cons_append, tokensFrom, bareNext here (.inl rfl),
    later fun d mem => bare d (List.mem_cons_of_mem _ mem)]
  simp only [opens, quote, here, if_false, if_true]

inductive Begins (cs : List (Option Char)) : Prop where
  | ended (skip : skipBlanks cs = []) (none : tokens cs = [])
  | mark {c : Option Char} {rest : List (Option Char)} (skip : skipBlanks cs = c :: rest)
      (first : tokens cs = .mark c :: tokens rest)
  | quoted {raw rest : List (Option Char)} (skip : skipBlanks cs = some '"' :: (raw ++ rest))
      (first : tokens cs = .quoted raw :: tokens rest)
  | bare {raw rest : List (Option Char)} (skip : skipBlanks cs = raw ++ rest) (ends : Ends rest)
      (first : tokens cs = .bare raw :: tokens rest)

theorem insideSplit {p : Place} (within : p = .inside ∨ p = .escaped) (cs : List (Option Char)) :
    ∃ rest, cs = (tokensFrom p cs).1 ++ rest ∧ (tokensFrom p cs).2 = tokens rest := by
  induction cs generalizing p with
  | nil => exact ⟨[], rfl, rfl⟩
  | cons c cs ih =>
    have whole : tokensFrom p (c :: cs) = (c :: (tokensFrom (p.next c) cs).1, (tokensFrom (p.next c) cs).2) := by
      rcases within with rfl | rfl <;> rfl
    have after : p.next c = .between ∨ p.next c = .inside ∨ p.next c = .escaped := by
      rcases within with rfl | rfl
      · simp only [Place.next]
        split_ifs <;> simp
      · exact .inr (.inl rfl)
    rw [whole]
    rcases after with closed | still
    · rw [closed, betweenNone]
      exact ⟨cs, rfl, rfl⟩
    · obtain ⟨rest, split, later⟩ := ih still
      exact ⟨rest, congrArg (c :: ·) split, later⟩

theorem bareSplit (cs : List (Option Char)) :
    ∃ rest, cs = (tokensFrom .bare cs).1 ++ rest ∧ (tokensFrom .bare cs).2 = tokens rest ∧ Ends rest := by
  induction cs with
  | nil => exact ⟨[], rfl, rfl, nofun⟩
  | cons c cs ih =>
    cases bare : isBare c with
    | true =>
      have whole : tokensFrom .bare (c :: cs) = (c :: (tokensFrom .bare cs).1, (tokensFrom .bare cs).2) := by
        rw [tokensFrom, bareNext bare (.inr rfl)]
        simp only [bare, if_true]
      obtain ⟨rest, split, later, ends⟩ := ih
      rw [whole]
      exact ⟨rest, congrArg (c :: ·) split, later, ends⟩
    | false =>
      have ends : Ends (c :: cs) := by
        rintro _ ⟨⟩
        exact bare
      rw [bareEnds ends]
      exact ⟨c :: cs, rfl, rfl, ends⟩

theorem tokensBegin (cs : List (Option Char)) : Begins cs := by
  have same := tokensSkip cs
  cases skipped : skipBlanks cs with
  | nil =>
    rw [skipped] at same
    exact .ended skipped same.symm
  | cons c rest =>
    rw [skipped] at same
    have visible : isBlank c = false := by
      have first := List.head?_dropWhile_not isBlank cs
      rw [← skipBlanks, skipped] at first
      exact first
    by_cases quote : c = some '"'
    · subst quote
      obtain ⟨left, split, later⟩ := insideSplit (.inl rfl) rest
      have first : tokens (some '"' :: rest) =
          .quoted (tokensFrom .inside rest).1 :: (tokensFrom .inside rest).2 := rfl
      rw [first, later] at same
      exact .quoted (skipped.trans (congrArg (some '"' :: ·) split)) same.symm
    · cases bare : isBare c with
      | true =>
        obtain ⟨left, split, later, ends⟩ := bareSplit rest
        have first : tokens (c :: rest) = .bare (c :: (tokensFrom .bare rest).1) :: (tokensFrom .bare rest).2 := by
          rw [tokens, tokensFrom, bareNext bare (.inl rfl)]
          simp only [opens, quote, bare, if_false, if_true]
        rw [first, later] at same
        exact .bare (skipped.trans (congrArg (c :: ·) split)) ends same.symm
      | false =>
        have mark : isMark c = true := by
          simpa [isBare, visible, quote] using bare
        rw [tokensMark mark] at same
        exact .mark skipped same.symm

section
variable {cs : List (Option Char)} {ts : List Token}

theorem endedOf (none : tokens cs = []) : skipBlanks cs = [] := by
  cases tokensBegin cs with
  | ended skip _ => exact skip
  | mark _ first | quoted _ first | bare _ _ first => exact nomatch none.symm.trans first

theorem markOf {c : Option Char} (mark : tokens cs = .mark c :: ts) :
    ∃ rest, skipBlanks cs = c :: rest ∧ tokens rest = ts := by
  cases tokensBegin cs with
  | mark skip first =>
    cases mark.symm.trans first
    exact ⟨_, skip, rfl⟩
  | ended _ first | quoted _ first | bare _ _ first => exact nomatch mark.symm.trans first

theorem quotedOf {raw : List (Option Char)} (quoted : tokens cs = .quoted raw :: ts) :
    ∃ rest, skipBlanks cs = some '"' :: (raw ++ rest) ∧ tokens rest = ts := by
  cases tokensBegin cs with
  | quoted skip first =>
    cases quoted.symm.trans first
    exact ⟨_, skip, rfl⟩
  | ended _ first | mark _ first | bare _ _ first => exact nomatch quoted.symm.trans first

theorem bareOf {raw : List (Option Char)} (bare : tokens cs = .bare raw :: ts) :
    ∃ rest, skipBlanks cs = raw ++ rest ∧ Ends rest ∧ tokens rest = ts := by
  cases tokensBegin cs with
  | bare skip ends first =>
    cases bare.symm.trans first
    exact ⟨_, skip, ends, rfl⟩
  | ended _ first | mark _ first | quoted _ first => exact nomatch bare.symm.trans first

end

theorem tokensLength (p : Place) (cs : List (Option Char)) : (tokensFrom p cs).2.length ≤ cs.length := by
  induction cs generalizing p with
  | nil => exact Nat.le_refl 0
  | cons c cs ih =>
    have later := ih (p.next c)
    have opened : (opens c (tokensFrom (p.next c) cs).1 (tokensFrom (p.next c) cs).2).length ≤ cs.length + 1 := by
      rw [opens]
      split_ifs
      · exact Nat.succ_le_succ later
      · exact Nat.succ_le_succ later
      · exact Nat.succ_le_succ later
      · exact Nat.le_succ_of_le later
    cases p with
    | inside | escaped => exact Nat.le_succ_of_le later
    | between => exact opened
    | bare =>
      cases bare : isBare c with
      | true =>
        simp only [tokensFrom, bare, if_true]
        exact Nat.le_succ_of_le later
      | false =>
        simp only [tokensFrom, bare, Bool.false_eq_true, if_false]
        exact opened

inductive Gap (before after : List (Option Char)) : Prop where
  | between (ended : before.foldl Place.next .between = .between)
  | bare (ended : before.foldl Place.next .between = .bare) (ends : Ends after)

theorem tokensBlanks {blanks cs : List (Option Char)} (blank : ∀ c ∈ blanks, isBlank c = true) :
    tokens (blanks ++ cs) = tokens cs := by
  induction blanks with
  | nil => rfl
  | cons c blanks ih =>
    rw [List.cons_append, tokensBlank (blank c List.mem_cons_self)]
    exact ih fun d mem => blank d (List.mem_cons_of_mem _ mem)

theorem endsBlanks {blanks cs : List (Option Char)} (blank : ∀ c ∈ blanks, isBlank c = true) (ends : Ends cs) :
    Ends (blanks ++ cs) := by
  cases blanks with
  | nil => exact ends
  | cons c blanks =>
    rintro _ ⟨⟩
    exact blankNotBare (blank c List.mem_cons_self)

theorem tokensGap {before blanks after : List (Option Char)} (gap : Gap before after)
    (blank : ∀ c ∈ blanks, isBlank c = true) : tokens (before ++ blanks ++ after) = tokens (before ++ after) := by
  have from' (p : Place)
      (ended : before.foldl Place.next p = .between ∨ before.foldl Place.next p = .bare ∧ Ends after) :
      tokensFrom p (before ++ (blanks ++ after)) = tokensFrom p (before ++ after) := by
    clear gap
    induction before generalizing p with
    | nil =>
      obtain rfl | ⟨rfl, ends⟩ := ended
      · rw [List.nil_append, List.nil_append, betweenNone, betweenNone, tokensBlanks blank]
      · rw [List.nil_append, List.nil_append, bareEnds (endsBlanks blank ends), bareEnds ends, tokensBlanks blank]
    | cons c before ih => simp only [List.cons_append, tokensFrom, ih (p.next c) ended]
  rw [List.append_assoc, tokens, tokens]
  cases gap with
  | between ended => rw [from' .between (.inl ended)]
  | bare ended ends => rw [from' .between (.inr ⟨ended, ends⟩)]

end TurtleBoard.Json
