import TurtleBoard.Text

/-! Keys as a terminal reports them, and the bindings that name them. -/
namespace TurtleBoard

inductive ModifierKey where
  | leftShift | rightShift | leftControl | leftAlt
  deriving DecidableEq, Repr

inductive KeyCode where
  | char (c : Char)
  | function (n : Nat)
  | up | down | left | right
  | enter | esc | tab | backTab | backspace | delete | home | null
  | modifier (key : ModifierKey)
  deriving DecidableEq, Repr

structure Modifiers where
  shift : Bool := false
  control : Bool := false
  alt : Bool := false
  superKey : Bool := false
  deriving DecidableEq, Repr

inductive KeyKind where
  | press | repeated | release
  deriving DecidableEq, Repr

structure Key where
  code : KeyCode
  modifiers : Modifiers := {}
  kind : KeyKind := .press
  deriving DecidableEq, Repr

namespace KeyCode

def named? (binding : String) : Option (List KeyCode) :=
  match binding with
  | "Right" => some [right]
  | "Left" => some [left]
  | "Up" => some [up]
  | "Down" => some [down]
  | "Enter" => some [enter]
  | "Esc" => some [esc]
  | "Space" => some [char ' ']
  | "Tab" => some [tab, backTab]
  | "Backspace" => some [backspace]
  | _ => none

def ofBinding (binding : List Char) : List KeyCode :=
  match named? (String.ofList binding) with
  | some codes => codes
  | none =>
      match binding with
      | ['F'] => [char 'F']
      | 'F' :: number => (Text.natBelow? 256 number).toList.map function
      | [c] => [char c]
      | _ => []

end KeyCode

namespace Key

def isPlain (binding : List Char) (key : Key) : Bool := (KeyCode.ofBinding binding).contains key.code

/- Whether a key is the one a binding names. `Alt-` and `Ctrl-` ask for the modifier, `Shift` is a shift key by itself,
and any other binding fails while control or alt is held. -/
def isBinding (binding : String) (key : Key) : Bool :=
  let cs := binding.toList
  match Text.dropPrefix? "Alt-".toList cs with
  | some rest => key.modifiers.alt && key.isPlain rest
  | none =>
      match Text.dropPrefix? "Ctrl-".toList cs with
      | some rest => key.modifiers.control && key.isPlain rest
      | none =>
          if binding = "Shift" then key.code == .modifier .leftShift || key.code == .modifier .rightShift
          else !key.modifiers.control && !key.modifiers.alt && key.isPlain cs

end Key
end TurtleBoard
