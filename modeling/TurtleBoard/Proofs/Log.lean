import Mathlib.Data.List.Perm.Subperm

/-! Logs whose entries each stand under an id, and what they have under one of them. -/
namespace TurtleBoard
variable {β : Type} {id : String}

def logOf (id : String) (log : List (String × β)) : List β :=
  log.filterMap fun entry => if entry.1 = id then some entry.2 else none

theorem logAppend (first second : List (String × β)) : logOf id (first ++ second) = logOf id first ++ logOf id second :=
  List.filterMap_append

theorem logOwn (entries : List β) : logOf id (entries.map (id, ·)) = entries := by
  induction entries with
  | nil => rfl
  | cons entry entries ih =>
    simp only [logOf, List.map_cons, List.filterMap_cons, if_true] at ih ⊢
    rw [ih]

theorem logOther {other : String} (different : other ≠ id) (entries : List β) :
    logOf id (entries.map (other, ·)) = [] := by
  simp only [logOf, List.filterMap_eq_nil_iff, List.mem_map]
  rintro _ ⟨entry, _, rfl⟩
  exact if_neg different

theorem logUnder (id : String) {other : String} (entries : List β) :
    logOf id (entries.map (other, ·)) = if id = other then entries else [] := by
  by_cases same : id = other
  · subst same
    rw [logOwn, if_pos rfl]
  · rw [logOther (Ne.symm same), if_neg same]

theorem logSingle (id : String) {other : String} (entry : β) :
    logOf id [(other, entry)] = if id = other then [entry] else [] := logUnder id [entry]

variable [BEq β] [LawfulBEq β]

theorem countLog (id : String) (x : β) (log : List (String × β)) : (logOf id log).count x = log.count (id, x) := by
  induction log with
  | nil => rfl
  | cons entry log ih =>
    obtain ⟨other, y⟩ := entry
    simp only [logOf] at ih
    by_cases own : other = id
    · by_cases same : y = x <;> simp [logOf, own, same, ih]
    · simp [logOf, own, ih]

theorem logWithin {part whole : List (String × β)}
    (within : ∀ id, (logOf id part).Sublist (logOf id whole)) : part.Subperm whole := by
  apply List.subperm_ext_iff.mpr
  rintro ⟨id, x⟩ _
  rw [← countLog, ← countLog]
  exact (within id).count_le x

end TurtleBoard
