import Mathlib.Data.List.Perm.Basic
import TurtleBoard.Config.Reader

/-! The fields of a JSON object, by name. A field is told by its only value or by default, whatever the order of the
members and whatever else there is; and an object tells all its fields, unless there is one of the faults that are
listed here. -/
namespace TurtleBoard

theorem mapMIff {α β : Type} {read : α → Option β} {xs : List α} {ys : List β} :
    xs.mapM read = some ys ↔ List.Forall₂ (fun x y => read x = some y) xs ys := by
  induction xs generalizing ys with
  | nil =>
    rw [List.mapM_nil, List.forall₂_nil_left_iff]
    exact Option.some_inj.trans eq_comm
  | cons x xs ih =>
    simp only [List.mapM_cons, Option.bind_eq_bind, Option.bind_eq_some_iff, ih, Option.pure_def, Option.some.injEq,
      List.forall₂_cons_left_iff]
    constructor
    · rintro ⟨y, here, ys, later, rfl⟩
      exact ⟨y, ys, here, later, rfl⟩
    · rintro ⟨y, ys, here, later, rfl⟩
      exact ⟨y, here, ys, later, rfl⟩

namespace Json

def valuesOf (name : String) (members : List (List Piece × Json)) : List Json :=
  (members.filter fun member => chars? member.1 = some name.toList).map (·.2)

def Named (member : List Piece × Json) (named : String × Json) : Prop :=
  (chars? member.1).map (fun cs => (String.ofList cs, member.2)) = some named

theorem namedValues {members : List (List Piece × Json)} {named : List (String × Json)}
    (decoded : List.Forall₂ Named members named) (name : String) :
    (named.filter (·.1 == name)).map (·.2) = valuesOf name members := by
  induction decoded with
  | nil => rfl
  | @cons member found members named here _ ih =>
    obtain ⟨cs, chars, rfl⟩ := Option.map_eq_some_iff.mp here
    have same : (String.ofList cs == name) = decide (chars? member.1 = some name.toList) := by
      rw [chars, beq_eq_decide, decide_eq_decide, Option.some.injEq, ← String.toList_inj, String.toList_ofList]
    rw [valuesOf, List.filter_cons, List.filter_cons, same]
    split
    · exact congrArg (member.2 :: ·) ih
    · exact ih

theorem namedAll {members : List (List Piece × Json)} :
    (∃ named, List.Forall₂ Named members named) ↔ ∀ member ∈ members, (chars? member.1).isSome = true := by
  induction members with
  | nil => exact ⟨fun _ _ => nofun, fun _ => ⟨[], .nil⟩⟩
  | cons member members ih =>
    rw [List.forall_mem_cons, ← ih]
    constructor
    · rintro ⟨_, _ | ⟨here, later⟩⟩
      obtain ⟨cs, chars, _⟩ := Option.map_eq_some_iff.mp here
      exact ⟨Option.isSome_of_eq_some chars, _, later⟩
    · rintro ⟨text, named, later⟩
      obtain ⟨cs, chars⟩ := Option.isSome_iff_exists.mp text
      exact ⟨_, .cons (Option.map_eq_some_iff.mpr ⟨cs, chars, rfl⟩) later⟩

def single? (found : List (String × Json)) : Option (Option Json) :=
  match found with
  | [] => some none
  | [(_, value)] => some (some value)
  | _ => none

theorem singleIff {found : List (String × Json)} {value : Option Json} :
    single? found = some value ↔ found.length ≤ 1 ∧ (found.map (·.2)).head? = value := by
  match found with
  | [] | [_] => simp [single?]
  | _ :: _ :: _ => simp [single?]

theorem fieldsIff {names : List String} {members : List (List Piece × Json)} {values : List (Option Json)} :
    (Json.object members).fields? names = some values ↔
      (∀ member ∈ members, (chars? member.1).isSome = true) ∧
        (∀ name ∈ names, (valuesOf name members).length ≤ 1) ∧
          names.map (fun name => (valuesOf name members).head?) = values := by
  have read : (Json.object members).fields? names =
      (members.mapM fun member => (chars? member.1).map fun cs => (String.ofList cs, member.2)).bind fun named =>
        names.mapM fun name => single? (named.filter (·.1 == name)) := rfl
  have each (values : List (Option Json)) :
      List.Forall₂ (fun name value => (valuesOf name members).length ≤ 1 ∧ (valuesOf name members).head? = value)
        names values ↔
      (∀ name ∈ names, (valuesOf name members).length ≤ 1) ∧
        names.map (fun name => (valuesOf name members).head?) = values := by
    rw [List.forall₂_and_left, ← List.forall₂_map_left_iff, List.forall₂_eq_eq_eq]
  rw [read, Option.bind_eq_some_iff, ← namedAll, ← each]
  simp only [mapMIff, singleIff]
  constructor
  · rintro ⟨named, decoded, found⟩
    simp only [← namedValues decoded, List.length_map]
    exact ⟨⟨named, decoded⟩, found⟩
  · rintro ⟨⟨named, decoded⟩, found⟩
    simp only [← namedValues decoded, List.length_map] at found
    exact ⟨named, decoded, found⟩

def Fits {β : Type} (means : Json → β → Prop) (v : Json) : Prop := ∃ x, means v x

inductive IsNat (limit : Nat) : Json → Nat → Prop where
  | digits {ds : List Char} (small : Number.digitsValue ds < limit) :
      IsNat limit (.number ⟨false, ds, [], none⟩) (Number.digitsValue ds)

inductive IsInt (limit : Nat) : Json → Int → Prop where
  | above {ds : List Char} (small : Number.digitsValue ds < limit) :
      IsInt limit (.number ⟨false, ds, [], none⟩) (Number.digitsValue ds)
  | below {ds : List Char} (some : 0 < Number.digitsValue ds) (small : Number.digitsValue ds ≤ limit) :
      IsInt limit (.number ⟨true, ds, [], none⟩) (-(Number.digitsValue ds : Int))

inductive IsFloat : Json → Float → Prop where
  | numeral {n : Numeral} {x : Float} (read : n.float? = some x) : IsFloat (.number n) x

inductive IsText : Json → String → Prop where
  | chars {pieces : List Piece} {cs : List Char} (read : chars? pieces = some cs) :
      IsText (.string pieces) (String.ofList cs)

theorem natIff {limit : Nat} {v : Json} {n : Nat} : natBelow? limit v = some n ↔ IsNat limit v n := by
  constructor
  · intro read
    unfold natBelow? at read
    split at read
    · split at read
      · rename_i small
        cases read
        exact .digits small
      · contradiction
    · contradiction
  · rintro ⟨small⟩
    exact if_pos small

theorem intIff {limit : Nat} {v : Json} {i : Int} : intWithin? limit v = some i ↔ IsInt limit v i := by
  constructor
  · intro read
    unfold intWithin? at read
    split at read
    · rename_i negative ds
      cases negative with
      | true =>
        simp only [if_true, Option.ite_none_right_eq_some, Option.some.injEq] at read
        obtain ⟨⟨some, small⟩, rfl⟩ := read
        exact .below some small
      | false =>
        simp only [Bool.false_eq_true, if_false, Option.ite_none_right_eq_some, Option.some.injEq] at read
        obtain ⟨small, rfl⟩ := read
        exact .above small
    · contradiction
  · intro means
    cases means with
    | above small => exact if_pos small
    | below some small => exact if_pos ⟨some, small⟩

theorem floatIff {v : Json} {x : Float} : float? v = some x ↔ IsFloat v x := by
  constructor
  · intro read
    unfold float? at read
    split at read
    · exact .numeral read
    · contradiction
  · rintro ⟨read⟩
    exact read

theorem textIff {v : Json} {text : String} : text? v = some text ↔ IsText v text := by
  constructor
  · intro read
    unfold text? at read
    split at read
    · obtain ⟨cs, read, rfl⟩ := Option.map_eq_some_iff.mp read
      exact .chars (by assumption)
    · contradiction
  · rintro ⟨read⟩
    exact Option.map_eq_some_iff.mpr ⟨_, read, rfl⟩

inductive Settles {β : Type} (means : Json → β → Prop) (default : β) : Option Json → β → Prop where
  | absent : Settles means default none default
  | given {v : Json} {x : β} (meaning : means v x) : Settles means default (some v) x

theorem settlesIff {β : Type} {read : Json → Option β} {means : Json → β → Prop}
    (reads : ∀ {v x}, read v = some x ↔ means v x) {default x : β} {value : Option Json} :
    orDefault read default value = some x ↔ Settles means default value x := by
  cases value with
  | none =>
    constructor
    · intro same
      cases same
      exact .absent
    · rintro ⟨⟩
      rfl
  | some v =>
    constructor
    · intro found
      exact .given (reads.mp found)
    · rintro ⟨meaning⟩
      exact reads.mpr (by assumption)

structure Field {β : Type} (members : List (List Piece × Json)) (name : String) (means : Json → β → Prop)
    (default x : β) : Prop where
  single : (valuesOf name members).length ≤ 1
  settles : Settles means default (valuesOf name members).head? x

inductive Fault (fields : List (String × (Json → Prop))) (members : List (List Piece × Json)) : Prop where
  | unnamed {member : List Piece × Json} (among : member ∈ members) (nameless : chars? member.1 = none)
  | twice {name : String} {accepts : Json → Prop} (known : (name, accepts) ∈ fields)
      (twice : 2 ≤ (valuesOf name members).length)
  | refused {name : String} {accepts : Json → Prop} {v : Json} (known : (name, accepts) ∈ fields)
      (given : v ∈ valuesOf name members) (refused : ¬ accepts v)

structure Faultless (fields : List (String × (Json → Prop))) (members : List (List Piece × Json)) : Prop where
  texts : ∀ member ∈ members, (chars? member.1).isSome = true
  single : ∀ field ∈ fields, (valuesOf field.1 members).length ≤ 1
  accepted : ∀ field ∈ fields, ∀ v ∈ valuesOf field.1 members, field.2 v

theorem faultlessIff {fields : List (String × (Json → Prop))} {members : List (List Piece × Json)} :
    Faultless fields members ↔ ¬Fault fields members := by
  constructor
  · intro faultless fault
    cases fault with
    | unnamed among nameless =>
      have text := faultless.texts _ among
      rw [nameless] at text
      contradiction
    | twice known twice => exact absurd (faultless.single _ known) (Nat.not_le.mpr twice)
    | refused known given refused => exact refused (faultless.accepted _ known _ given)
  · intro sound
    refine ⟨?_, ?_, ?_⟩
    · intro member among
      by_contra nameless
      exact sound (.unnamed among (Option.not_isSome_iff_eq_none.mp nameless))
    · intro field known
      by_contra twice
      exact sound (.twice known (by omega))
    · intro field known v given
      by_contra refused
      exact sound (.refused known given refused)

section
variable {β : Type} {members : List (List Piece × Json)} {name : String} {means : Json → β → Prop} {default : β}

theorem Field.accepted {x : β} (field : Field members name means default x) :
    ∀ v ∈ valuesOf name members, Fits means v := by
  obtain ⟨single, settles⟩ := field
  match valuesOf name members, single, settles with
  | [v], _, .given meaning => exact List.forall_mem_singleton.mpr ⟨_, meaning⟩
  | [], _, _ => exact nofun

theorem fieldOf (single : (valuesOf name members).length ≤ 1) (accepted : ∀ v ∈ valuesOf name members, Fits means v) :
    ∃ x, Field members name means default x := by
  cases values : valuesOf name members with
  | nil => exact ⟨default, single, by rw [values]; exact .absent⟩
  | cons v rest =>
    obtain ⟨x, meaning⟩ := accepted v (values ▸ List.mem_cons_self)
    exact ⟨x, single, by rw [values]; exact .given meaning⟩

end

/- Members in another order, with others between them that are none of the fields. -/
inductive Rearranged (names : List String) (members others : List (List Piece × Json)) : Prop where
  | order {extra : List (List Piece × Json)}
      (unknown : ∀ member ∈ extra, ∃ name : String, chars? member.1 = some name.toList ∧ name ∉ names)
      (order : others.Perm (extra ++ members)) : Rearranged names members others

theorem fieldsRearranged {names : List String} {members others : List (List Piece × Json)}
    (rearranged : Rearranged names members others) :
    (Json.object others).fields? names = (Json.object members).fields? names := by
  obtain @⟨extra, unknown, order⟩ := rearranged
  have texts : (∀ member ∈ others, (chars? member.1).isSome = true) ↔
      ∀ member ∈ members, (chars? member.1).isSome = true := by
    simp only [order.mem_iff, List.forall_mem_append]
    refine and_iff_right fun member mem => ?_
    obtain ⟨name, text, _⟩ := unknown member mem
    exact Option.isSome_of_eq_some text
  have values : ∀ name ∈ names, (valuesOf name others).Perm (valuesOf name members) := by
    intro name known
    have none : extra.filter (fun member => chars? member.1 = some name.toList) = [] := by
      rw [List.filter_eq_nil_iff]
      intro member mem
      obtain ⟨other, text, unnamed⟩ := unknown member mem
      rw [decide_eq_true_eq, text, Option.some_inj, String.toList_inj]
      rintro rfl
      exact unnamed known
    have kept := (order.filter fun member => chars? member.1 = some name.toList).map (·.2)
    rwa [List.filter_append, none, List.nil_append] at kept
  have head (name : String) (known : name ∈ names) (single : (valuesOf name members).length ≤ 1) :
      (valuesOf name others).head? = (valuesOf name members).head? := by
    have perm := values name known
    match found : valuesOf name members, single with
    | [], _ =>
      rw [found] at perm
      rw [perm.eq_nil]
    | [v], _ =>
      rw [found] at perm
      rw [perm.eq_singleton]
  have single : (∀ name ∈ names, (valuesOf name others).length ≤ 1) ↔
      ∀ name ∈ names, (valuesOf name members).length ≤ 1 :=
    forall₂_congr fun name known => by rw [(values name known).length_eq]
  apply Option.ext
  intro found
  rw [fieldsIff, fieldsIff, texts, single]
  refine and_congr_right fun _ => and_congr_right fun few => ?_
  rw [List.map_congr_left fun name known => head name known (few name known)]

section
variable {before after : List (List Piece × Json)} {pieces : List Piece} {v w : Json} {name : String}

theorem valuesOwn (own : chars? pieces = some name.toList) :
    valuesOf name (before ++ (pieces, v) :: after) = valuesOf name before ++ v :: valuesOf name after := by
  simp [valuesOf, own]

theorem valuesOther (other : chars? pieces ≠ some name.toList) :
    valuesOf name (before ++ (pieces, v) :: after) = valuesOf name before ++ valuesOf name after := by
  simp [valuesOf, other]

variable {β : Type} {means : Json → β → Prop} {default x : β}

theorem Field.other (other : chars? pieces ≠ some name.toList)
    (field : Field (before ++ (pieces, v) :: after) name means default x) :
    Field (before ++ (pieces, w) :: after) name means default x := by
  have same : valuesOf name (before ++ (pieces, w) :: after) = valuesOf name (before ++ (pieces, v) :: after) := by
    rw [valuesOther other, valuesOther other]
  obtain ⟨single, settles⟩ := field
  rw [← same] at single settles
  exact ⟨single, settles⟩

theorem Field.own (own : chars? pieces = some name.toList) (same : ∀ x, means v x → means w x)
    (field : Field (before ++ (pieces, v) :: after) name means default x) :
    Field (before ++ (pieces, w) :: after) name means default x := by
  obtain ⟨single, settles⟩ := field
  rw [valuesOwn own, List.length_append, List.length_cons] at single
  have first : valuesOf name before = [] := List.eq_nil_of_length_eq_zero (by omega)
  rw [valuesOwn own, first] at settles
  constructor
  · rw [valuesOwn own, List.length_append, List.length_cons]
    exact single
  · rw [valuesOwn own, first]
    cases settles with
    | given meaning => exact .given (same x meaning)

end

end Json

end TurtleBoard
