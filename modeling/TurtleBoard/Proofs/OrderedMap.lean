import TurtleBoard.OrderedMap

/-! Reading an ordered map after a change. An entry is what reading its key gives, because no key comes twice. -/
namespace TurtleBoard.OrderedMap
variable {κ β : Type} [LT κ] [DecidableEq κ]

theorem getAbsent {map : OrderedMap κ β} {key : κ} (absent : map.contains key = false) : map.get? key = none := by
  rw [get?, Option.map_eq_none_iff, List.find?_eq_none]
  intro entry mem same
  have present : map.contains key = true := List.any_eq_true.mpr ⟨entry, mem, same⟩
  rw [absent] at present
  contradiction

theorem memKeys (map : OrderedMap κ β) (key : κ) : key ∈ map.keys ↔ map.contains key = true := by
  simp only [keys, contains, List.mem_map, List.any_eq_true, decide_eq_true_eq]

theorem getPresent {map : OrderedMap κ β} {key : κ} : map.contains key = true ↔ ∃ value, map.get? key = some value := by
  constructor
  · intro present
    refine Option.ne_none_iff_exists'.mp fun absent => ?_
    rw [get?, Option.map_eq_none_iff, List.find?_eq_none] at absent
    obtain ⟨entry, mem, own⟩ := List.any_eq_true.mp present
    exact absent entry mem own
  · rintro ⟨value, found⟩
    refine (Bool.eq_false_or_eq_true _).resolve_right fun absent => ?_
    rw [getAbsent absent] at found
    contradiction

theorem getModify (map : OrderedMap κ β) (key other : κ) (change : β → β) :
    (map.modify key change).get? other = if other = key then (map.get? other).map change else map.get? other := by
  have found : (map.modify key change).entries.find? (·.1 = other) = (map.entries.find? (·.1 = other)).map
      fun entry => (entry.1, if entry.1 = key then change entry.2 else entry.2) := List.find?_map
  rw [get?, found, Option.map_map]
  cases here : map.entries.find? (·.1 = other) with
  | none => simp only [get?, here, Option.map_none, ite_self]
  | some entry =>
    have key : entry.1 = other := by simpa using List.find?_some here
    simp only [get?, here, Option.map_some, Function.comp_apply, key]
    split <;> rfl

section
variable [LE κ] [Std.LawfulOrderLT κ]

theorem memEntries (map : OrderedMap κ β) (key : κ) (value : β) :
    (key, value) ∈ map.entries ↔ map.get? key = some value := by
  have find (entries : List (κ × β)) (sorted : entries.Pairwise (·.1 < ·.1)) :
      (key, value) ∈ entries ↔ (entries.find? (·.1 = key)).map (·.2) = some value := by
    induction entries with
    | nil => simp
    | cons first rest ih =>
      obtain ⟨below, later⟩ := List.pairwise_cons.mp sorted
      by_cases here : first.1 = key
      · have absent : (key, value) ∉ rest := by
          intro mem
          have less := below _ mem
          rw [here] at less
          exact Std.lt_irrefl less
        simp only [List.mem_cons, absent, or_false, List.find?_cons, here, decide_true, Option.map_some,
          Option.some.injEq]
        constructor
        · rintro rfl
          rfl
        · rintro rfl
          exact (congrArg (·, first.2) here).symm
      · have other : (key, value) ≠ first := fun same => here (congrArg Prod.fst same).symm
        simp only [List.mem_cons, other, false_or, List.find?_cons, here, decide_false, ih later]
  exact find map.entries map.sorted

theorem getErase (map : OrderedMap κ β) (key other : κ) :
    (map.erase key).get? other = if other = key then none else map.get? other := by
  apply Option.ext
  intro value
  rw [← memEntries, erase, List.mem_filter, memEntries]
  by_cases own : other = key
  · simp [own]
  · simp [own]

theorem keysFilter {map : OrderedMap κ β} {key : κ} {value : β} (found : map.get? key = some value) :
    map.keys.filter (· = key) = [key] := by
  have once (entries : List (κ × β)) (sorted : entries.Pairwise (·.1 < ·.1)) (mem : (key, value) ∈ entries) :
      (entries.map (·.1)).filter (· = key) = [key] := by
    induction entries with
    | nil => contradiction
    | cons first rest ih =>
      obtain ⟨below, later⟩ := List.pairwise_cons.mp sorted
      rcases List.mem_cons.mp mem with rfl | among
      · have absent : (rest.map (·.1)).filter (· = key) = [] := by
          simp only [List.filter_eq_nil_iff, List.mem_map, decide_eq_true_eq]
          rintro _ ⟨entry, mem, rfl⟩ same
          exact Std.ne_of_lt (below entry mem) same.symm
        simp only [List.map_cons, List.filter_cons, decide_true, if_true, absent]
      · have different : first.1 ≠ key := Std.ne_of_lt (below (key, value) among)
        simp only [List.map_cons, List.filter_cons, different, decide_false, Bool.false_eq_true, if_false]
        exact ih later among
  exact once map.entries map.sorted ((memEntries map key value).mpr found)

end

section
variable [LE κ] [Std.LawfulOrderLT κ] [Std.IsLinearOrder κ] {γ : Type}

theorem extGet {first second : OrderedMap κ β} (same : ∀ key, first.get? key = second.get? key) : first = second := by
  have distinct (map : OrderedMap κ β) : map.entries.Nodup :=
    map.sorted.imp fun below same => Std.ne_of_lt below (congrArg Prod.fst same)
  have members (entry : κ × β) : entry ∈ first.entries ↔ entry ∈ second.entries := by
    rw [memEntries first entry.1 entry.2, memEntries second entry.1 entry.2, same]
  have alike := (List.perm_ext_iff_of_nodup (distinct first) (distinct second)).mpr members
  have entries : first.entries = second.entries := by
    refine List.Perm.eq_of_pairwise ?_ first.sorted second.sorted alike
    intro _ _ _ _ below above
    exact absurd (Std.lt_trans below above) Std.lt_irrefl
  obtain ⟨listed, sorted⟩ := first
  subst entries
  rfl

theorem lastValue {pick : β → Option γ} {map : OrderedMap κ β} {x : γ}
    (last : (map.values.filterMap pick).getLast? = some x) :
    ∃ key value, map.get? key = some value ∧ pick value = some x ∧
      ∀ other v, map.get? other = some v → (pick v).isSome = true → ¬ key < other := by
  obtain ⟨before, ends⟩ := List.getLast?_eq_some_iff.mp last
  rw [values, List.filterMap_map] at ends
  obtain ⟨front, back, split, _, rest⟩ := List.filterMap_eq_append_iff.mp ends
  obtain ⟨skipped, entry, tail, parts, _, own, empty⟩ := List.filterMap_eq_cons_iff.mp rest
  rw [parts, ← List.append_assoc] at split
  have sorted := map.sorted
  have mem : entry ∈ map.entries := split ▸ List.mem_append_right _ List.mem_cons_self
  refine ⟨entry.1, entry.2, (memEntries _ _ _).mp mem, own, ?_⟩
  intro other v here picks above
  have among := (memEntries map other v).mpr here
  rw [split] at among sorted
  rcases List.mem_append.mp among with earlier | later
  · exact Std.lt_irrefl (Std.lt_trans above ((List.pairwise_append.mp sorted).2.2 _ earlier _ List.mem_cons_self))
  · rcases List.mem_cons.mp later with rfl | later
    · exact Std.lt_irrefl above
    · have nothing : pick v = none := List.filterMap_eq_nil_iff.mp empty _ later
      rw [nothing] at picks
      contradiction

theorem lastValueIff {pick : β → Option γ} {map : OrderedMap κ β} {x : γ} :
    (map.values.filterMap pick).getLast? = some x ↔
      ∃ key value, map.get? key = some value ∧ pick value = some x ∧
        ∀ other v, map.get? other = some v → (pick v).isSome = true → ¬ key < other := by
  refine ⟨lastValue, ?_⟩
  rintro ⟨key, value, here, own, top⟩
  have listed : x ∈ map.values.filterMap pick :=
    List.mem_filterMap.mpr ⟨value, List.mem_map.mpr ⟨(key, value), (memEntries _ _ _).mpr here, rfl⟩, own⟩
  cases last : (map.values.filterMap pick).getLast? with
  | none =>
    rw [List.getLast?_eq_none_iff.mp last] at listed
    contradiction
  | some y =>
    obtain ⟨other, v, there, picks, greatest⟩ := lastValue last
    have notAbove := top other v there (Option.isSome_of_eq_some picks)
    have notBelow := greatest key value here (Option.isSome_of_eq_some own)
    obtain rfl : key = other := by
      rcases Std.lt_trichotomy key other with below | same | above
      · exact absurd below notAbove
      · exact same
      · exact absurd above notBelow
    cases here.symm.trans there
    rw [← picks, own]

omit [Std.IsLinearOrder κ] in
theorem lastNone {pick : β → Option γ} {map : OrderedMap κ β} :
    (map.values.filterMap pick).getLast? = none ↔ ∀ key value, map.get? key = some value → pick value = none := by
  rw [List.getLast?_eq_none_iff, List.filterMap_eq_nil_iff]
  constructor
  · intro nothing key value here
    exact nothing value (List.mem_map.mpr ⟨(key, value), (memEntries _ _ _).mpr here, rfl⟩)
  · intro nothing value mem
    obtain ⟨entry, among, rfl⟩ := List.mem_map.mp mem
    exact nothing entry.1 entry.2 ((memEntries _ _ _).mp among)

end

variable [DecidableLT κ]

theorem findInsertEntry (key other : κ) (value : β) (entries : List (κ × β)) :
    (insertEntry key value entries).find? (·.1 = other) =
      if key = other then some (key, value) else entries.find? (·.1 = other) := by
  induction entries with
  | nil =>
    by_cases here : key = other <;> simp [insertEntry, here]
  | cons first rest ih =>
    obtain ⟨k, v⟩ := first
    rw [insertEntry]
    by_cases here : key = other
    · subst here
      split
      · simp
      · split
        · simp
        · rename_i different
          simp [Ne.symm different, ih]
    · split
      · simp [here]
      · split
        · rename_i same
          subst same
          simp [here]
        · simp only [List.find?_cons, ih, if_neg here]

variable [LE κ] [Std.LawfulOrderLT κ] [Std.IsLinearOrder κ]

@[simp] theorem getInsertSelf (map : OrderedMap κ β) (key : κ) (value : β) :
    (map.insert key value).get? key = some value := by
  simp [insert, get?, findInsertEntry]

theorem getInsertOther (map : OrderedMap κ β) {key other : κ} (value : β) (different : key ≠ other) :
    (map.insert key value).get? other = map.get? other := by
  simp [insert, get?, findInsertEntry, different]

theorem memKeysInsert (map : OrderedMap κ β) (key other : κ) (value : β) :
    other ∈ (map.insert key value).keys ↔ other = key ∨ other ∈ map.keys := by
  rw [memKeys, memKeys, getPresent, getPresent]
  by_cases own : other = key
  · subst own
    simp
  · simp [getInsertOther map value (Ne.symm own), own]

end TurtleBoard.OrderedMap
