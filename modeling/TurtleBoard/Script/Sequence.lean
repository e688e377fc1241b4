import TurtleBoard.Script.Command

/-! A list of actions that is handed out once, front to back. -/
namespace TurtleBoard

structure Sequence (α : Type) where
  actions : List (Action α) := []
  cursor : Nat := 0
  deriving Repr

namespace Sequence
variable {α : Type}

def ofActions (actions : List (Action α)) : Sequence α := { actions }

def isExhausted (s : Sequence α) : Bool := decide (s.actions.length ≤ s.cursor)

def size (s : Sequence α) : Nat := s.actions.length - s.cursor

def next (s : Sequence α) : Option (Action α) × Sequence α :=
  match s.actions[s.cursor]? with
  | none => (none, s)
  | some action => (some action, { s with cursor := s.cursor + 1 })

end Sequence
end TurtleBoard
