import TurtleBoard.Number.Decimal

/-! The commands of a script, and actions: commands with the line they were read from. -/
namespace TurtleBoard

inductive Command (α : Type) where
  | step (count : α)
  | turnLeft (degrees : α)
  | turnRight (degrees : α)
  | color (name : Option String)
  | width (pixels : α)
  | say (text : String)
  deriving BEq, DecidableEq, Repr

def Command.text : Command Float → String
  | .step n => "forward " ++ Number.text n
  | .turnLeft n => "left " ++ Number.text n
  | .turnRight n => "right " ++ Number.text n
  | .color none => "color off"
  | .color (some name) => "color " ++ name
  | .width n => "width " ++ Number.text n
  | .say text => "say " ++ text

structure Action (α : Type) where
  command : Command α
  raw : String
  deriving Repr

instance {α : Type} [BEq α] : BEq (Action α) := ⟨fun a b => a.command == b.command⟩

end TurtleBoard
