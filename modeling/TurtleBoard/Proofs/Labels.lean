import TurtleBoard.Proofs.Layers

/-! The columns of a label. They are counted from the column that the label is centered on, which is held to a word;
the ones beside it are not, so a label far from the canvas has columns that no word holds, unless its row lies outside
as well. Such columns do no harm to the picture, even if they are reduced to words: no label that lies beside the canvas
is seen. -/
namespace TurtleBoard

namespace Number

def IsWord (n : Int) : Prop := minWord ≤ n ∧ n ≤ maxWord

instance (n : Int) : Decidable (IsWord n) := inferInstanceAs (Decidable (_ ∧ _))

def wrap (n : Int) : Int := (n - minWord) % wordLimit + minWord

theorem wordEnds : minWord = -9223372036854775808 ∧ maxWord = 9223372036854775807 ∧
    (wordLimit : Int) = 18446744073709551616 := ⟨rfl, rfl, rfl⟩

theorem wrapWord (n : Int) : IsWord (wrap n) := by
  obtain ⟨low, high, limit⟩ := wordEnds
  rw [IsWord, wrap, low, high, limit]
  omega

theorem wrapOfWord {n : Int} (word : IsWord n) : wrap n = n := by
  obtain ⟨low, high, limit⟩ := wordEnds
  rw [IsWord, low, high] at word
  rw [wrap, low, limit]
  omega

theorem wrapInside {n : Int} {count : Nat} (small : count ≤ 2 ^ 62) (lower : minWord - 2 ^ 62 ≤ n)
    (upper : n ≤ maxWord + 2 ^ 62) : 0 ≤ wrap n ∧ wrap n < count ↔ 0 ≤ n ∧ n < count := by
  obtain ⟨low, high, limit⟩ := wordEnds
  rw [low] at lower
  rw [high] at upper
  rw [wrap, low, limit]
  omega

theorem floorInWord {α : Type} [Scalar α] (x : α) : IsWord (Scalar.floorIn minWord maxWord x) := by
  have order : minWord ≤ maxWord := by decide
  have held (n : Int) : IsWord (Scalar.hold minWord maxWord n) := by
    rw [IsWord, Scalar.hold]
    split_ifs <;> omega
  rw [Scalar.floorIn, Scalar.roundedIn]
  split <;> exact held _

end Number

namespace Canvas
open Number (IsWord wrap minWord maxWord)

def labelRow (bubble : Point Float × String) : Int := Scalar.floorIn minWord maxWord (bubble.1.y / Raster.cellHeight)

def labelMiddle (bubble : Point Float × String) : Int :=
  Scalar.floorIn minWord maxWord (bubble.1.x / Raster.cellWidth)

def labelLength (bubble : Point Float × String) : Nat := (label bubble.2).length

def labelFirst (bubble : Point Float × String) : Int := labelStart bubble.1.x (labelLength bubble)

def LaidOut (rows : Nat) (bubble : Point Float × String) : Prop := 0 ≤ labelRow bubble ∧ labelRow bubble < rows

instance (rows : Nat) (bubble : Point Float × String) : Decidable (LaidOut rows bubble) :=
  inferInstanceAs (Decidable (_ ∧ _))

def columns (rows : Nat) (bubble : Point Float × String) : List Int :=
  if LaidOut rows bubble then (List.range (labelLength bubble)).map fun (i : Nat) => labelFirst bubble + i else []

theorem labelLengthTwo (bubble : Point Float × String) : 2 ≤ labelLength bubble := by
  rw [labelLength, label, List.length_cons, List.length_append, List.length_singleton]
  omega

theorem labelFirstMiddle (bubble : Point Float × String) :
    labelFirst bubble = labelMiddle bubble - (labelLength bubble / 2 : Nat) := rfl

theorem memColumns {rows : Nat} {bubble : Point Float × String} {n : Int} : n ∈ columns rows bubble ↔
    LaidOut rows bubble ∧ labelFirst bubble ≤ n ∧ n < labelFirst bubble + labelLength bubble := by
  rw [columns]
  split
  · rename_i laidOut
    rw [List.mem_map]
    constructor
    · rintro ⟨i, below, rfl⟩
      have := List.mem_range.mp below
      exact ⟨laidOut, by omega, by omega⟩
    · rintro ⟨_, lower, upper⟩
      exact ⟨(n - labelFirst bubble).toNat, List.mem_range.mpr (by omega), by omega⟩
  · rename_i outside
    exact iff_of_false List.not_mem_nil fun inside => outside inside.1

theorem columnsInWords (rows : Nat) (bubble : Point Float × String) :
    (∀ n ∈ columns rows bubble, IsWord n) ↔
      (LaidOut rows bubble → minWord + (labelLength bubble / 2 : Nat) ≤ labelMiddle bubble ∧
        labelMiddle bubble + (labelLength bubble - 1 - labelLength bubble / 2 : Nat) ≤ maxWord) := by
  have length := labelLengthTwo bubble
  have first := labelFirstMiddle bubble
  obtain ⟨low, high⟩ : IsWord (labelMiddle bubble) := Number.floorInWord _
  simp only [memColumns]
  constructor
  · intro words laidOut
    have start := (words _ ⟨laidOut, le_rfl, by omega⟩).1
    have last := (words (labelFirst bubble + (labelLength bubble - 1 : Nat)) ⟨laidOut, by omega, by omega⟩).2
    omega
  · rintro fits n ⟨laidOut, lower, upper⟩
    obtain ⟨left, right⟩ := fits laidOut
    exact ⟨by omega, by omega⟩

def paintChar (row : Nat) (g : Grid) (char : Int × Char) : Grid :=
  if 0 ≤ char.1 ∧ char.1 < g.cols then g.set char.1.toNat row ⟨char.2, bubbleStyle⟩ else g

def paintLabel (bubble : Point Float × String) (columns : List Int) (g : Grid) : Grid :=
  (columns.zip (label bubble.2)).foldl (paintChar (labelRow bubble).toNat) g

theorem paintCharCols (row : Nat) (g : Grid) (char : Int × Char) : (paintChar row g char).cols = g.cols := by
  rw [paintChar]
  split <;> simp

theorem putLabelPaints (row : Nat) (start : Int) (chars : List Char) (g : Grid) :
    putLabel row start chars g =
      (((List.range chars.length).map fun (i : Nat) => start + i).zip chars).foldl (paintChar row) g := by
  induction chars generalizing start g with
  | nil => rfl
  | cons char chars ih =>
    have later : (fun (i : Nat) => start + i) ∘ Nat.succ = fun (i : Nat) => start + 1 + i := by
      funext i
      simp only [Function.comp_apply]
      omega
    rw [putLabel, ih, List.length_cons, List.range_succ_eq_map, List.map_cons, List.map_map, later, List.zip_cons_cons,
      List.foldl_cons, Nat.cast_zero, add_zero, paintChar]

theorem putBubblePaints (g : Grid) (bubble : Point Float × String) :
    putBubble g bubble = paintLabel bubble (columns g.rows bubble) g := by
  change (if labelRow bubble < 0 ∨ (g.rows : Int) ≤ labelRow bubble then g
    else putLabel (labelRow bubble).toNat (labelFirst bubble) (label bubble.2) g) = _
  rw [paintLabel, columns]
  by_cases laidOut : LaidOut g.rows bubble
  · rw [if_pos laidOut, if_neg (by obtain ⟨above, below⟩ := laidOut; omega)]
    exact putLabelPaints _ _ _ _
  · rw [if_neg laidOut, if_pos (by rw [LaidOut] at laidOut; omega)]
    rfl

theorem paintLabelMap {bubble : Point Float × String} {cols : Nat} {other : Int → Int} {columns : List Int}
    (alike : ∀ n ∈ columns, (0 ≤ other n ∧ other n < cols ↔ 0 ≤ n ∧ n < cols) ∧ (0 ≤ n ∧ n < cols → other n = n))
    {g : Grid} (size : g.cols = cols) : paintLabel bubble (columns.map other) g = paintLabel bubble columns g := by
  rw [paintLabel, paintLabel]
  generalize label bubble.2 = chars
  induction columns generalizing chars g with
  | nil => rfl
  | cons n columns ih =>
    cases chars with
    | nil => rfl
    | cons char chars =>
      have first : paintChar (labelRow bubble).toNat g (other n, char) =
          paintChar (labelRow bubble).toNat g (n, char) := by
        obtain ⟨inside, same⟩ := alike n List.mem_cons_self
        simp only [paintChar, size, inside]
        split
        · rename_i here
          rw [same here]
        · rfl
      rw [List.map_cons, List.zip_cons_cons, List.zip_cons_cons, List.foldl_cons, List.foldl_cons, first]
      exact ih (fun n mem => alike n (List.mem_cons_of_mem _ mem)) ((paintCharCols _ _ _).trans size) chars

theorem paintsInWords {bubble : Point Float × String} {g : Grid} (short : labelLength bubble ≤ 2 ^ 62)
    (narrow : g.cols ≤ maxCells) :
    paintLabel bubble ((columns g.rows bubble).map wrap) g = putBubble g bubble := by
  have cells : maxCells = 65535 := rfl
  obtain ⟨low, high⟩ : IsWord (labelMiddle bubble) := Number.floorInWord _
  rw [putBubblePaints]
  refine paintLabelMap (fun n mem => ?_) rfl
  obtain ⟨_, lower, upper⟩ := memColumns.mp mem
  rw [labelFirstMiddle] at lower upper
  have inside : 0 ≤ wrap n ∧ wrap n < g.cols ↔ 0 ≤ n ∧ n < g.cols :=
    Number.wrapInside (by omega) (by omega) (by omega)
  refine ⟨inside, fun here => Number.wrapOfWord ?_⟩
  have ends : minWord ≤ 0 ∧ (65535 : Int) ≤ maxWord := by decide
  exact ⟨by omega, by omega⟩

def Beside (cols : Nat) (bubble : Point Float × String) : Prop :=
  labelFirst bubble + labelLength bubble ≤ 0 ∨ (cols : Int) ≤ labelFirst bubble

theorem besideUnseen {bubble : Point Float × String} {g : Grid} (beside : Beside g.cols bubble) :
    putBubble g bubble = g := by
  have outside : ∀ n ∈ columns g.rows bubble, ¬(0 ≤ n ∧ n < g.cols) := by
    intro n mem
    obtain ⟨_, lower, upper⟩ := memColumns.mp mem
    rcases beside with left | right <;> omega
  rw [putBubblePaints, paintLabel]
  generalize columns g.rows bubble = places at outside
  generalize label bubble.2 = chars
  induction places generalizing chars with
  | nil => rfl
  | cons n places ih =>
    cases chars with
    | nil => rfl
    | cons char chars =>
      rw [List.zip_cons_cons, List.foldl_cons, paintChar, if_neg (outside n List.mem_cons_self)]
      exact ih (fun n mem => outside n (List.mem_cons_of_mem _ mem)) chars

theorem composeWithout {c : Canvas} {number : Nat} {bubble : Point Float × String}
    (here : c.bubbles.get? number = some bubble) (unseen : ∀ g : Grid, g.cols = c.cols → putBubble g bubble = g) :
    (c.remove number).compose = c.compose := by
  have own : ∀ entry ∈ c.bubbles.entries, entry.1 = number → entry.2 = bubble := by
    rintro ⟨key, value⟩ mem rfl
    exact Option.some.inj (((OrderedMap.memEntries _ _ _).mp mem).symm.trans here)
  have drawn (entries : List (Nat × (Point Float × String)))
      (own : ∀ entry ∈ entries, entry.1 = number → entry.2 = bubble) (g : Grid) (size : g.cols = c.cols) :
      ((entries.filter (·.1 ≠ number)).map (·.2)).foldl putBubble g = (entries.map (·.2)).foldl putBubble g := by
    induction entries generalizing g with
    | nil => rfl
    | cons entry entries ih =>
      have later := ih fun entry mem => own entry (List.mem_cons_of_mem _ mem)
      rw [List.map_cons, List.foldl_cons]
      by_cases same : entry.1 = number
      · rw [List.filter_cons_of_neg (by simpa using same), own entry List.mem_cons_self same, unseen g size]
        exact later g size
      · rw [List.filter_cons_of_pos (by simpa using same), List.map_cons, List.foldl_cons]
        exact later _ ((putBubbleSize g entry.2).1.trans size)
  exact drawn c.bubbles.entries own _ (foldlSize c.putSprite c.putSpriteSize c.sprites.values c.background).1

theorem labelsInWords {c : Canvas} {number : Nat} {bubble : Point Float × String}
    (here : c.bubbles.get? number = some bubble) :
    ((∀ n ∈ columns c.rows bubble, IsWord n) ↔
      (LaidOut c.rows bubble → minWord + (labelLength bubble / 2 : Nat) ≤ labelMiddle bubble ∧
        labelMiddle bubble + (labelLength bubble - 1 - labelLength bubble / 2 : Nat) ≤ maxWord)) ∧
      (Beside c.cols bubble → (c.remove number).compose = c.compose) ∧
      (∀ n ∈ (columns c.rows bubble).map wrap, IsWord n) ∧
      ∀ g : Grid, g.cols = c.cols → g.rows = c.rows → putBubble g bubble = paintLabel bubble (columns c.rows bubble) g ∧
        (labelLength bubble ≤ 2 ^ 62 → c.cols ≤ maxCells →
          paintLabel bubble ((columns c.rows bubble).map wrap) g = putBubble g bubble) := by
  refine ⟨columnsInWords c.rows bubble, fun beside => composeWithout here fun g size => ?_,
    List.forall_mem_map.mpr fun n _ => Number.wrapWord n, fun g cols rows => ?_⟩
  · exact besideUnseen (size ▸ beside)
  · rw [← cols, ← rows]
    exact ⟨putBubblePaints g bubble, paintsInWords⟩

theorem labelsInWordsAfter :
    let c := (ofSize 4 2).apply (.show 0 ⟨6.0, 1.0⟩ "ok")
    c.bubbles.get? 0 = some (⟨6.0, 1.0⟩, "ok") ∧ Beside c.cols (⟨6.0, 1.0⟩, "ok") ∧
      (c.remove 0).compose = c.compose := by
  intro c
  have here : c.bubbles.get? 0 = some (⟨6.0, 1.0⟩, "ok") := rfl
  have beside : Beside c.cols (⟨6.0, 1.0⟩, "ok") := .inr (by decide +kernel)
  exact ⟨here, beside, (labelsInWords here).2.1 beside⟩

/- A bubble at -10^19 in the first row of a canvas: its label would begin two columns before the first word. -/
theorem farLabelLeavesWords :
    let bubble : Point Float × String := (⟨Float.ofBits 0xc3e158e460913d00, 1.0⟩, "hi")
    let c := (ofSize 20 5).apply (.show 0 bubble.1 bubble.2)
    c.bubbles.get? 0 = some bubble ∧ Number.value? bubble.1.x = some (-10 ^ 19) ∧ LaidOut c.rows bubble ∧
      labelFirst bubble = minWord - 2 ∧ labelFirst bubble ∈ columns c.rows bubble ∧ ¬ IsWord (labelFirst bubble) := by
  intro bubble c
  have laidOut : LaidOut c.rows bubble := by decide +kernel
  have first : labelFirst bubble = minWord - 2 := by decide +kernel
  refine ⟨rfl, by decide +kernel, laidOut, first, memColumns.mpr ⟨laidOut, le_rfl, ?_⟩, ?_⟩
  · have := labelLengthTwo bubble
    omega
  · rw [first]
    decide

end Canvas
end TurtleBoard
