import Mathlib.Data.List.Nodup
import TurtleBoard.Moves
import TurtleBoard.Proofs.Store
import TurtleBoard.Proofs.Taking

/-! What scripts hand out. A source of scripts offers its actors at the first poll and nobody after it; each of them
answers its pulls with the actions of its script in their order, and is done from then on. Neither asks anything of a
network. -/
namespace TurtleBoard

namespace Sequence
variable {α : Type}

def answers (s : Sequence α) (pulls : Nat) : List (Pull α) :=
  (s.left.take pulls).map .ready ++ List.replicate (pulls - s.left.length) .done

def after (s : Sequence α) (pulls : Nat) : Sequence α := { s with cursor := s.cursor + min pulls s.left.length }

theorem answersNext (s : Sequence α) (pulls : Nat) :
    s.answers (pulls + 1) = s.pull.1 :: s.pull.2.answers pulls ∧ s.after (pulls + 1) = s.pull.2.after pulls := by
  cases own : s.left with
  | nil =>
    rw [pullEnded own]
    constructor
    · simp only [answers, own, List.take_nil, List.map_nil, List.nil_append, List.length_nil, Nat.sub_zero]
      rfl
    · simp only [after, own, List.length_nil, Nat.min_zero]
  | cons action rest =>
    obtain ⟨ready, next⟩ := pullNext own
    have cursor : s.cursor + min (pulls + 1) (rest.length + 1) = s.cursor + 1 + min pulls rest.length := by omega
    rw [ready]
    constructor
    · simp only [answers, own, next, List.take_succ_cons, List.map_cons, List.length_cons, Nat.add_sub_add_right]
      rfl
    · simp only [after, own, next, List.length_cons, cursor]

theorem afterLeft (s : Sequence α) (pulls : Nat) : (s.after pulls).left = s.left.drop pulls := by
  have moved : (s.after pulls).left = s.actions.drop (s.cursor + min pulls s.left.length) := rfl
  rw [moved, left, List.drop_drop, List.length_drop]
  rcases Nat.le_total pulls (s.actions.length - s.cursor) with few | many
  · rw [Nat.min_eq_left few]
  · rw [Nat.min_eq_right many, List.drop_eq_nil_of_le (by omega), List.drop_eq_nil_of_le (by omega)]

/- What pulls of an actor answer, and the sequence that they leave, when the actor has some actions to hand over. -/
structure HandsOver {ω : Type} (actions : List (Action α)) (links : List ω) (answers : List (Pull α × ω))
    (left : Sequence α) : Prop where
  answered : answers =
    ((actions.take links.length).map Pull.ready ++
      List.replicate (links.length - actions.length) Pull.done).zip links
  kept : left.actions = actions
  cursor : left.cursor = min links.length actions.length
  exhausted : left.isExhausted = true ↔ left.cursor = actions.length
  size : left.size = actions.length - left.cursor
  rest : left.left = actions.drop links.length

theorem handsOver {ω : Type} (actions : List (Action α)) (links : List ω) :
    HandsOver actions links (((ofActions actions).answers links.length).zip links)
      ((ofActions actions).after links.length) := by
  have cursor : ((ofActions actions).after links.length).cursor = min links.length actions.length :=
    Nat.zero_add _
  refine ⟨rfl, rfl, cursor, ?_, rfl, afterLeft (ofActions actions) links.length⟩
  have kept : ((ofActions actions).after links.length).actions = actions := rfl
  rw [isExhausted, kept, cursor, decide_eq_true_iff]
  omega

end Sequence

namespace Moves
variable {ω : Type} [Link ω]

def pulls (moves : Moves) : List ω → List (Pull Float × ω) × Moves
  | [] => ([], moves)
  | link :: links =>
      let (answer, moves, link) := moves.pull link
      let (answers, moves) := moves.pulls links
      ((answer, link) :: answers, moves)

theorem pullsScript (s : Sequence Float) (links : List ω) :
    (script s).pulls links = ((s.answers links.length).zip links, .script (s.after links.length)) := by
  induction links generalizing s with
  | nil => simp only [pulls, List.zip_nil_right, Sequence.after, List.length_nil, Nat.zero_min, Nat.add_zero]
  | cons link links ih =>
    obtain ⟨answers, after⟩ := s.answersNext links.length
    rw [List.length_cons, answers, after, List.zip_cons_cons, pulls, pull]
    simp only [ih]

end Moves

namespace Source
variable {ω : Type} [Link ω]

def polls (source : Source) : List ω → List (List Newcomer × ω)
  | [] => []
  | link :: links =>
      let (newcomers, source, link) := source.poll link
      (newcomers, link) :: source.polls links

theorem pollsEmpty (links : List ω) : (Source.scripts []).polls links = links.map ([], ·) := by
  induction links with
  | nil => rfl
  | cons link links ih =>
    rw [polls, poll, List.map_cons]
    simp only [ih]

def newcomersOf (scripts : List String) : List Newcomer := scripts.mapIdx fun i script => .scripted (toString i) script

theorem pollsScripts (scripts : List String) (link : ω) (links : List ω) :
    (ofScripts scripts).polls (link :: links) = (newcomersOf scripts, link) :: links.map ([], ·) := by
  rw [ofScripts, polls, poll]
  simp only [pollsEmpty]
  rfl

theorem newcomersIds (scripts : List String) :
    (newcomersOf scripts).map (·.id) = (List.range scripts.length).map toString := by
  refine List.ext_getElem? fun i => ?_
  rw [newcomersOf, List.getElem?_map, List.getElem?_mapIdx, List.getElem?_map]
  rcases Nat.lt_or_ge i scripts.length with inside | outside
  · rw [List.getElem?_eq_getElem inside, List.getElem?_range inside]
    rfl
  · rw [List.getElem?_eq_none outside, List.getElem?_eq_none (by rwa [List.length_range])]
    rfl

theorem idsApart (n : Nat) : ((List.range n).map (toString : Nat → String)).Nodup :=
  List.nodup_range.map fun _ _ same => Store.numberInjective (congrArg ("" ++ ·) same)

theorem scriptsHandedOutOnce (scripts : List String) (link : ω) (links : List ω) :
    ∃ newcomers : List Newcomer, (ofScripts scripts).polls (link :: links) = (newcomers, link) :: links.map ([], ·) ∧
      newcomers.map (·.id) = (List.range scripts.length).map toString ∧ (newcomers.map (·.id)).Nodup ∧
      ∀ (i : Nat) (script : String), scripts[i]? = some script →
        ∃ moves : Moves, newcomers[i]? = some ⟨toString i, moves⟩ ∧ ∀ networks : List ω,
          ∃ left, (moves.pulls networks).2 = .script left ∧
            Sequence.HandsOver (Script.parse script) networks (moves.pulls networks).1 left := by
  refine ⟨newcomersOf scripts, pollsScripts scripts link links, newcomersIds scripts, ?_, ?_⟩
  · rw [newcomersIds]
    exact idsApart scripts.length
  · intro i script here
    refine ⟨.script (.ofActions (Script.parse script)), ?_, ?_⟩
    · rw [newcomersOf, List.getElem?_mapIdx, here]
      rfl
    · intro networks
      rw [Moves.pullsScript]
      exact ⟨_, rfl, Sequence.handsOver _ networks⟩

theorem scriptsHandedOutOnceThreePulls :
    let script := "draw mode\nforward 2\nsay hi"
    let silent : Network := ⟨"", none⟩
    [script, "forward"][0]? = some script ∧
      ∃ (newcomers : List Newcomer) (moves : Moves) (left : Sequence Float),
        (ofScripts [script, "forward"]).polls [silent, silent] = [(newcomers, silent), ([], silent)] ∧
          newcomers[0]? = some ⟨"0", moves⟩ ∧ (moves.pulls [silent, silent, silent]).2 = .script left ∧
            left.cursor = 2 ∧ left.isExhausted = true := by
  intro script silent
  have first : [script, "forward"][0]? = some script := rfl
  obtain ⟨newcomers, polled, _, _, handOver⟩ := scriptsHandedOutOnce [script, "forward"] silent [silent]
  obtain ⟨moves, here, pulled⟩ := handOver 0 script first
  obtain ⟨left, same, hands⟩ := pulled [silent, silent, silent]
  have two : (Script.parse script).length = 2 := by decide +kernel
  have cursor : left.cursor = 2 := by
    rw [hands.cursor, two]
    rfl
  exact ⟨first, newcomers, moves, left, polled, here, same, cursor, hands.exhausted.mpr (cursor.trans two.symm)⟩

end Source
end TurtleBoard
