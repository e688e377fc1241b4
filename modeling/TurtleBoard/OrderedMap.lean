/-! Maps whose entries are kept in the order of their keys, each key once. -/
namespace TurtleBoard

structure OrderedMap (κ β : Type) [LT κ] where
  entries : List (κ × β) := []
  sorted : entries.Pairwise (·.1 < ·.1) := by exact .nil

namespace OrderedMap
variable {κ β γ : Type} [LT κ] [DecidableLT κ] [DecidableEq κ]

def insertEntry (key : κ) (value : β) : List (κ × β) → List (κ × β)
  | [] => [(key, value)]
  | (k, v) :: rest =>
      if key < k then (key, value) :: (k, v) :: rest
      else if key = k then (key, value) :: rest
      else (k, v) :: insertEntry key value rest

theorem memInsertEntry {key : κ} {value : β} {entries : List (κ × β)} {entry : κ × β}
    (mem : entry ∈ insertEntry key value entries) : entry = (key, value) ∨ entry ∈ entries := by
  induction entries with
  | nil => exact .inl (List.mem_singleton.mp mem)
  | cons first rest ih =>
    rw [insertEntry] at mem
    split at mem
    · exact List.mem_cons.mp mem
    · split at mem
      · exact (List.mem_cons.mp mem).imp_right (List.mem_cons_of_mem _)
      · rcases List.mem_cons.mp mem with same | later
        · exact .inr (List.mem_cons.mpr (.inl same))
        · exact (ih later).imp_right (List.mem_cons_of_mem _)

section
variable [LE κ] [Std.LawfulOrderLT κ] [Std.IsLinearOrder κ]

theorem insertEntrySorted (key : κ) (value : β) {entries : List (κ × β)} (sorted : entries.Pairwise (·.1 < ·.1)) :
    (insertEntry key value entries).Pairwise (·.1 < ·.1) := by
  induction entries with
  | nil => exact List.pairwise_singleton _ _
  | cons first rest ih =>
    obtain ⟨below, later⟩ := List.pairwise_cons.mp sorted
    rw [insertEntry]
    split
    · rename_i before
      refine List.pairwise_cons.mpr ⟨?_, sorted⟩
      intro entry mem
      rcases List.mem_cons.mp mem with rfl | mem
      · exact before
      · exact Std.lt_trans before (below entry mem)
    · rename_i notBefore
      split
      · rename_i same
        exact List.pairwise_cons.mpr ⟨fun entry mem => same ▸ below entry mem, later⟩
      · rename_i different
        refine List.pairwise_cons.mpr ⟨?_, ih later⟩
        intro entry mem
        rcases memInsertEntry mem with rfl | mem
        · exact Std.lt_of_le_of_ne (Std.not_lt.mp notBefore) (Ne.symm different)
        · exact below entry mem

def insert (map : OrderedMap κ β) (key : κ) (value : β) : OrderedMap κ β :=
  ⟨insertEntry key value map.entries, insertEntrySorted key value map.sorted⟩

end

def erase (map : OrderedMap κ β) (key : κ) : OrderedMap κ β :=
  ⟨map.entries.filter (·.1 ≠ key), map.sorted.filter _⟩

def get? (map : OrderedMap κ β) (key : κ) : Option β := (map.entries.find? (·.1 = key)).map (·.2)

def contains (map : OrderedMap κ β) (key : κ) : Bool := map.entries.any (·.1 = key)

def modify (map : OrderedMap κ β) (key : κ) (change : β → β) : OrderedMap κ β where
  entries := map.entries.map fun (k, v) => (k, if k = key then change v else v)
  sorted := List.pairwise_map.mpr map.sorted

def keys (map : OrderedMap κ β) : List κ := map.entries.map (·.1)

def values (map : OrderedMap κ β) : List β := map.entries.map (·.2)

def size (map : OrderedMap κ β) : Nat := map.entries.length

end OrderedMap
end TurtleBoard
