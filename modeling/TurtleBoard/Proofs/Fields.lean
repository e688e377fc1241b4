import TurtleBoard.Text

/-! Text taken apart: fields between separators, and what stands behind a prefix. -/
namespace TurtleBoard.Text
variable {isSeparator : Char → Bool}

theorem fieldsSplit (isSeparator : Char → Bool) (cs : List Char) :
    fields isSeparator cs = cs.splitOnP isSeparator := by
  induction cs with
  | nil => rfl
  | cons c cs ih =>
    rw [fields, List.splitOnP_cons_eq_if_modifyHead, ih]
    split
    · rfl
    · split
      · rename_i first rest split
        rw [split]
        rfl
      · rename_i empty
        exact absurd empty (List.splitOnP_ne_nil _ _)

theorem fieldsLast {cs : List Char} (inside : ∀ c ∈ cs, isSeparator c = false) : fields isSeparator cs = [cs] :=
  (fieldsSplit isSeparator cs).trans (List.splitOnP_eq_singleton inside)

theorem fieldsAppend (before rest : List Char) {separator : Char} (separates : isSeparator separator = true) :
    fields isSeparator (before ++ separator :: rest) = fields isSeparator before ++ fields isSeparator rest := by
  simp only [fieldsSplit, List.splitOnP_append_cons before rest separates]

theorem fieldsNext {cs : List Char} {separator : Char} (rest : List Char)
    (inside : ∀ c ∈ cs, isSeparator c = false) (separates : isSeparator separator = true) :
    fields isSeparator (cs ++ separator :: rest) = cs :: fields isSeparator rest := by
  rw [fieldsAppend cs rest separates, fieldsLast inside, List.singleton_append]

theorem fieldsCount (cs : List Char) : (fields isSeparator cs).length = cs.countP isSeparator + 1 := by
  induction cs with
  | nil => rfl
  | cons c cs ih =>
    rw [fieldsSplit, List.splitOnP_cons_eq_if_modifyHead, ← fieldsSplit, List.countP_cons]
    split
    · rw [List.length_cons, ih]
    · rw [List.length_modifyHead, ih]

theorem dropPrefixIff {start cs rest : List Char} : dropPrefix? start cs = some rest ↔ cs = start ++ rest := by
  induction start generalizing cs with
  | nil => exact Option.some_inj
  | cons s start ih =>
    cases cs with
    | nil => exact ⟨nofun, nofun⟩
    | cons c cs =>
      rw [dropPrefix?, List.cons_append, List.cons_eq_cons, eq_comm (a := c)]
      split
      · rename_i same
        rw [ih]
        exact (and_iff_right same).symm
      · rename_i other
        exact ⟨nofun, fun both => absurd both.1 other⟩

end TurtleBoard.Text
