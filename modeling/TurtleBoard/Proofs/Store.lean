import TurtleBoard.Store

/-! The store as its callers see it: which artists there are and what waits for each of them after every operation, and
that the ids of the artists are numbers in the order in which they came. -/
namespace TurtleBoard

theorem Text.digitInduct {motive : Char → Prop} (digits : ∀ n < 10, motive (Char.ofNat (48 + n))) (c : Char)
    (digit : c.isDigit = true) : motive c := by
  obtain ⟨low, high⟩ : 48 ≤ c.toNat ∧ c.toNat ≤ 57 := Char.isDigit_iff_toNat.mp digit
  have here := digits (c.toNat - 48) (by omega)
  rwa [Nat.add_sub_of_le low, Char.ofNat_toNat] at here

namespace Store

def artistId (n : Nat) : String := s!"artist{n}"

theorem artistIdList (n : Nat) : (artistId n).toList = "artist".toList ++ Nat.toDigits 10 n := by
  have spelled : artistId n = "artist" ++ n.repr := rfl
  rw [spelled, String.toList_append, Nat.toList_repr]

theorem numberInjective {word : String} {m n : Nat} (same : word ++ m.repr = word ++ n.repr) : m = n := by
  have digits := congrArg String.toList ((String.append_right_inj word).mp same)
  rw [Nat.toList_repr, Nat.toList_repr] at digits
  have values := congrArg (Nat.ofDigitChars 10 · 0) digits
  simpa only [Nat.ofDigitChars_ten_toDigits] using values

theorem artistIdInjective {m n : Nat} (same : artistId m = artistId n) : m = n := numberInjective same

def moveId (n : Nat) : String := s!"move{n}"

theorem moveIdInjective {m n : Nat} (same : moveId m = moveId n) : m = n := numberInjective same

theorem artistIdChars (n : Nat) : ∀ c ∈ (artistId n).toList, c ∈ "artist".toList ++ "0123456789".toList := by
  intro c mem
  rw [artistIdList] at mem
  rcases List.mem_append.mp mem with mem | mem
  · exact List.mem_append_left _ mem
  · have digit := Nat.isDigit_of_mem_toDigits (by decide) (by decide) mem
    have digits : ∀ k < 10, Char.ofNat (48 + k) ∈ "0123456789".toList := by decide
    exact List.mem_append_right _ (Text.digitInduct digits c digit)

theorem hasArtistIff (s : Store) (id : String) : s.hasArtist id = true ↔ ∃ artist ∈ s.artists, artist.id = id := by
  simp only [hasArtist, List.any_eq_true, beq_iff_eq]

theorem hasArtistCreate (s : Store) (name id : String) :
    (s.create name).2.hasArtist id = (s.hasArtist id || (artistId (s.artistCount + 1) == id)) := by
  have artists : (s.create name).2.artists = s.artists ++ [⟨artistId (s.artistCount + 1), name⟩] := rfl
  simp only [hasArtist, artists, List.any_append, List.any_cons, List.any_nil, Bool.or_false]

def Numbered (s : Store) : Prop := s.artists.map (·.id) = (List.range s.artistCount).map fun n => artistId (n + 1)

theorem numberedId {s : Store} (numbered : s.Numbered) {id : String} (registered : s.hasArtist id = true) :
    ∃ n, n < s.artistCount ∧ id = artistId (n + 1) := by
  obtain ⟨artist, mem, rfl⟩ := (hasArtistIff s id).mp registered
  have listed : artist.id ∈ s.artists.map (·.id) := List.mem_map_of_mem mem
  rw [numbered] at listed
  obtain ⟨n, within, same⟩ := List.mem_map.mp listed
  exact ⟨n, List.mem_range.mp within, same.symm⟩

theorem nextIsNew {s : Store} (numbered : s.Numbered) : s.hasArtist (artistId (s.artistCount + 1)) = false := by
  apply Bool.eq_false_iff.mpr
  intro registered
  obtain ⟨n, within, same⟩ := numberedId numbered registered
  have number := artistIdInjective same
  omega

theorem createNumbered {s : Store} (numbered : s.Numbered) (name : String) : (s.create name).2.Numbered := by
  have artists : (s.create name).2.artists = s.artists ++ [⟨artistId (s.artistCount + 1), name⟩] := rfl
  have count : (s.create name).2.artistCount = s.artistCount + 1 := rfl
  rw [Numbered, artists, count, List.map_append, numbered, List.range_succ, List.map_append]
  rfl

theorem findEnqueue (id other : String) (move : Move) (queues : List (String × List Move)) :
    (((enqueue id move queues).find? (·.1 == other)).map (·.2)).getD [] =
      ((queues.find? (·.1 == other)).map (·.2)).getD [] ++ if other = id then [move] else [] := by
  induction queues with
  | nil =>
    by_cases same : other = id
    · simp [enqueue, same]
    · simp [enqueue, same, Ne.symm same]
  | cons queue queues ih =>
    obtain ⟨owner, moves⟩ := queue
    by_cases found : owner = other
    · by_cases first : owner = id
      · simp only [enqueue, first, if_true, List.find?_cons, beq_self_eq_true, ← found, Option.map_some,
          Option.getD_some]
      · have unlike : other ≠ id := found ▸ first
        simp only [enqueue, unlike, if_false, List.find?_cons, found, beq_self_eq_true, Option.map_some,
          Option.getD_some, List.append_nil]
    · have skipped : (owner == other) = false := beq_eq_false_iff_ne.mpr found
      by_cases first : owner = id
      · have unlike : other ≠ id := fun same => found (first.trans same.symm)
        simp only [enqueue, first, unlike, if_true, if_false, List.find?_cons, List.append_nil]
        rw [← first, skipped]
      · simp only [enqueue, first, if_false, List.find?_cons, skipped, ih]

theorem pendingPush (s : Store) (id description other : String) :
    (s.push id description).2.pending other =
      s.pending other ++ if other = id then [(s.push id description).1] else [] :=
  findEnqueue id other _ s.queues

theorem pendingCreate (s : Store) (name other : String) :
    (s.create name).2.pending other = s.pending other ++
      if other = artistId (s.artistCount + 1) then [⟨moveId (s.moveCount + 1), "say " ++ name⟩] else [] :=
  findEnqueue _ other _ s.queues

theorem memEnqueue {id : String} {move : Move} {queues : List (String × List Move)} {queue : String × List Move}
    (mem : queue ∈ enqueue id move queues) : queue.1 = id ∧ queue.2 ≠ [] ∨ queue ∈ queues := by
  induction queues with
  | nil =>
    rw [List.mem_singleton.mp mem]
    exact .inl ⟨rfl, List.cons_ne_nil _ _⟩
  | cons first queues ih =>
    obtain ⟨owner, moves⟩ := first
    rw [enqueue] at mem
    split at mem
    · rename_i own
      rcases List.mem_cons.mp mem with rfl | later
      · exact .inl ⟨own, List.append_ne_nil_of_right_ne_nil _ (List.cons_ne_nil _ _)⟩
      · exact .inr (List.mem_cons_of_mem _ later)
    · rcases List.mem_cons.mp mem with rfl | later
      · exact .inr List.mem_cons_self
      · exact (ih later).imp_right (List.mem_cons_of_mem _)

theorem findDrained (id other : String) (queues : List (String × List Move)) :
    (queues.filter (·.1 != id)).find? (·.1 == other) =
      if other = id then none else queues.find? (·.1 == other) := by
  induction queues with
  | nil => simp only [List.filter_nil, List.find?_nil, ite_self]
  | cons queue queues ih =>
    by_cases owned : queue.1 = id
    · have dropped : (queue.1 != id) = false := bne_eq_false_iff_eq.mpr owned
      rw [List.filter_cons, dropped, if_neg Bool.false_ne_true, ih, List.find?_cons]
      by_cases same : other = id
      · simp only [same, if_true]
      · have unlike : (queue.1 == other) = false := beq_eq_false_iff_ne.mpr fun found => same (found.symm.trans owned)
        simp only [same, if_false, unlike]
    · have kept : (queue.1 != id) = true := bne_iff_ne.mpr owned
      rw [List.filter_cons, kept, if_pos rfl, List.find?_cons, List.find?_cons, ih]
      cases found : queue.1 == other with
      | false => rfl
      | true =>
        have unlike : other ≠ id := fun same => owned ((beq_iff_eq.mp found).trans same)
        simp only [unlike, if_false]

theorem pendingDrain (s : Store) (id other : String) :
    (s.drain id).2.pending other = if other = id then [] else s.pending other := by
  simp only [drain, pending, findDrained]
  split <;> rfl

end Store
end TurtleBoard
