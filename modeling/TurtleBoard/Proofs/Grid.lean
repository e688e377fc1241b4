import TurtleBoard.Cell

/-! The places of a grid, and the two lists of changes that a frame can be: every cell of a picture, or the cells in
which two pictures of one size differ. Both name each place at most once. -/
namespace TurtleBoard

def CellChange.place (change : CellChange) : Nat × Nat := (change.x, change.y)

namespace Grid

@[simp] theorem setCols (g : Grid) (x y : Nat) (cell : Cell) : (g.set x y cell).cols = g.cols := by
  unfold set
  split <;> rfl

@[simp] theorem setRows (g : Grid) (x y : Nat) (cell : Cell) : (g.set x y cell).rows = g.rows := by
  unfold set
  split <;> rfl

theorem getInside (g : Grid) (x y : Nat) : (g.get? x y).isSome = true ↔ x < g.cols ∧ y < g.rows := by
  rw [get?]
  split
  · rename_i inside
    rw [isSome_getElem?, g.size_eq, Nat.mul_comm]
    constructor
    · intro below
      exact ⟨inside, Nat.lt_of_mul_lt_mul_left (Nat.lt_of_le_of_lt (Nat.le_add_right _ _) below)⟩
    · rintro ⟨_, below⟩
      calc
        g.cols * y + x < g.cols * (y + 1) := Nat.add_lt_add_left inside _
        _ ≤ g.cols * g.rows := Nat.mul_le_mul_left _ below
  · rename_i outside
    exact iff_of_false Bool.false_ne_true fun inside => outside inside.1

theorem getBlank (cols rows x y : Nat) : (blank cols rows).get x y = Cell.blank := by
  simp only [get, get?, blank, Array.getElem?_replicate]
  split
  · split <;> rfl
  · rfl

theorem getSet (g : Grid) (x y : Nat) (cell : Cell) {col row : Nat} (wide : col < g.cols) (high : row < g.rows) :
    (g.set x y cell).get col row = if x = col ∧ y = row then cell else g.get col row := by
  have inside : row * g.cols + col < g.cells.size := by
    have found := (g.getInside col row).mpr ⟨wide, high⟩
    rwa [get?, if_pos wide, isSome_getElem?] at found
  by_cases reach : x < g.cols
  · have same : y * g.cols + x = row * g.cols + col ↔ x = col ∧ y = row := by
      constructor
      · intro place
        have columns := congrArg (· % g.cols) place
        simp only [Nat.mul_add_mod_of_lt reach, Nat.mul_add_mod_of_lt wide] at columns
        subst columns
        exact ⟨rfl, Nat.eq_of_mul_eq_mul_right (Nat.zero_lt_of_lt wide) (Nat.add_right_cancel place)⟩
      · rintro ⟨rfl, rfl⟩
        rfl
    simp only [set, reach, if_true, get, get?, wide, Array.getElem?_setIfInBounds, same]
    split
    · rw [if_pos (by rename_i here; rw [same.mpr here]; exact inside)]
      rfl
    · rfl
  · rw [set, if_neg reach, if_neg]
    rintro ⟨rfl, _⟩
    exact reach wide

@[simp] theorem memPlaces {cols rows x y : Nat} : (x, y) ∈ places cols rows ↔ x < cols ∧ y < rows := by
  simp only [places, List.mem_flatMap, List.mem_map, List.mem_range, Prod.mk.injEq]
  constructor
  · rintro ⟨row, hr, col, hc, rfl, rfl⟩
    exact ⟨hc, hr⟩
  · rintro ⟨hc, hr⟩
    exact ⟨y, hr, x, hc, rfl, rfl⟩

theorem placesNodup (cols rows : Nat) : (places cols rows).Nodup := by
  simp only [places, List.Nodup, List.pairwise_flatMap, List.pairwise_map]
  refine ⟨?_, ?_⟩
  · intro row _
    exact (List.nodup_range : (List.range cols).Nodup).imp fun different same => different (congrArg Prod.fst same)
  · refine (List.nodup_range : (List.range rows).Nodup).imp ?_
    intro upper lower different a ha b hb same
    obtain ⟨col, _, rfl⟩ := List.mem_map.mp ha
    obtain ⟨col', _, rfl⟩ := List.mem_map.mp hb
    exact different (congrArg Prod.snd same)

theorem memAll {g : Grid} {change : CellChange} :
    change ∈ g.all ↔ change.x < g.cols ∧ change.y < g.rows ∧ change.cell = g.get change.x change.y := by
  simp only [all, List.mem_map, Prod.exists, memPlaces]
  constructor
  · rintro ⟨x, y, ⟨hx, hy⟩, rfl⟩
    exact ⟨hx, hy, rfl⟩
  · rintro ⟨hx, hy, same⟩
    exact ⟨change.x, change.y, ⟨hx, hy⟩, by rw [← same]⟩

theorem memDifferences {old g : Grid} (cols : old.cols = g.cols) (rows : old.rows = g.rows) {change : CellChange} :
    change ∈ old.differences g ↔
      change.x < g.cols ∧ change.y < g.rows ∧ old.get change.x change.y ≠ g.get change.x change.y ∧
        change.cell = g.get change.x change.y := by
  simp only [differences, cols, rows, Nat.min_self, List.mem_filterMap, Prod.exists, memPlaces]
  constructor
  · rintro ⟨x, y, ⟨hx, hy⟩, found⟩
    split at found
    · contradiction
    · rename_i different
      cases found
      exact ⟨hx, hy, different, rfl⟩
  · rintro ⟨hx, hy, different, same⟩
    exact ⟨change.x, change.y, ⟨hx, hy⟩, by rw [if_neg different, ← same]⟩

theorem allPlaces (g : Grid) : g.all.map CellChange.place = places g.cols g.rows := by
  rw [all, List.map_map]
  exact List.map_id _

theorem allNodup (g : Grid) : (g.all.map CellChange.place).Nodup := by
  rw [allPlaces]
  exact placesNodup g.cols g.rows

theorem differencesNodup (old g : Grid) : ((old.differences g).map CellChange.place).Nodup := by
  rw [differences, List.map_filterMap]
  refine List.Pairwise.filterMap _ ?_ (placesNodup _ _)
  have kept (p q : Nat × Nat) (found : Option.map CellChange.place
      (if old.get p.1 p.2 = g.get p.1 p.2 then none else some ⟨p.1, p.2, g.get p.1 p.2⟩) = some q) : p = q := by
    split at found
    · contradiction
    · exact Option.some.inj found
  intro p q different a ha b hb same
  exact different ((kept p a ha).trans (same.trans (kept q b hb).symm))

end Grid
end TurtleBoard
