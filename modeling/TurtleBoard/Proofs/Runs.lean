import TurtleBoard.Proofs.Board

/-! Whole runs of a board: what was done to it, act by act, and what came of each act. Others may do anything to the
service in between, so each act has a link of its own. -/
namespace TurtleBoard.Board
variable {ω : Type} [Link ω]

structure Deed (ω : Type) where
  before : Board
  act : Act
  outcome : Outcome ω

def Deed.calls (d : Deed ω) : List Call := d.outcome.calls

def deed (b : Board) (act : Act) (link : ω) : Deed ω := ⟨b, act, b.perform link act⟩

def deeds (b : Board) : List (Act × ω) → List (Deed ω)
  | [] => []
  | (act, link) :: acts => b.deed act link :: deeds (b.perform link act).board acts

def after (b : Board) : List (Act × ω) → Board
  | [] => b
  | (act, link) :: acts => after (b.perform link act).board acts

theorem runInduct {P : Board → List (Deed ω) → Prop} {b : Board} {acts : List (Act × ω)} (done : List (Deed ω))
    (start : P b done)
    (keeps : ∀ b done act link, (act, link) ∈ acts → P b done →
      P (b.perform link act).board (done ++ [b.deed act link])) :
    P (b.after acts) (done ++ b.deeds acts) := by
  induction acts generalizing b done with
  | nil => simpa only [deeds, after, List.append_nil] using start
  | cons entry acts ih =>
    obtain ⟨act, link⟩ := entry
    have first := keeps b done act link List.mem_cons_self start
    have rest := ih _ first fun b done act link mem => keeps b done act link (List.mem_cons_of_mem _ mem)
    simpa only [deeds, after, List.append_assoc, List.singleton_append] using rest

theorem deedsSplit {b : Board} {acts : List (Act × ω)} {before later : List (Deed ω)} {d : Deed ω}
    (split : b.deeds acts = before ++ d :: later) :
    ∃ earlier act link rest, acts = earlier ++ (act, link) :: rest ∧ before = b.deeds earlier ∧
      d = (b.after earlier).deed act link ∧ later = d.outcome.board.deeds rest := by
  induction before generalizing b acts with
  | nil =>
    cases acts with
    | nil => contradiction
    | cons entry rest =>
      obtain ⟨rfl, rfl⟩ := List.cons.inj split
      exact ⟨[], entry.1, entry.2, rest, rfl, rfl, rfl, rfl⟩
  | cons first before ih =>
    cases acts with
    | nil => contradiction
    | cons entry acts =>
      obtain ⟨rfl, next⟩ := List.cons.inj split
      obtain ⟨earlier, act, link, rest, rfl, rfl, here, later⟩ := ih next
      exact ⟨entry :: earlier, act, link, rest, rfl, rfl, here, later⟩

end TurtleBoard.Board
