import TurtleBoard.Script.Sequence

/-! Where an actor's actions come from. -/
namespace TurtleBoard

inductive Pull (α : Type) where
  | ready (action : Action α)
  | waiting
  | done
  deriving Repr

/- A supply answers one pull at a time. At most `bound` pulls in a row are ready. -/
class Supply (σ : Type) (α : outParam Type) where
  pull : σ → Pull α × σ
  bound : σ → Nat

namespace Sequence
variable {α : Type}

def pull (s : Sequence α) : Pull α × Sequence α :=
  match s.next with
  | (some action, s) => (.ready action, s)
  | (none, s) => (.done, s)

instance : Supply (Sequence α) α := ⟨pull, size⟩

end Sequence
end TurtleBoard
