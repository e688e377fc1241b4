import TurtleBoard.Script.Command
import TurtleBoard.Text

/-! The grammar of one line. Ten productions are tried in a fixed order on the trimmed line; keywords match in any
letter case and an argument follows exactly one space. The order only matters for `color off`, which is also a color
text. -/
namespace TurtleBoard

def foldCase (c : Char) : Char :=
  if c = 'ſ' then 's' else if c = '\u212a' then 'k' else c.toLower

namespace Line

def afterKeyword? : List Char → List Char → Option (List Char)
  | [], cs => some cs
  | k :: keyword, c :: cs => if foldCase c = k then afterKeyword? keyword cs else none
  | _ :: _, [] => none

def isKeyword (keyword : String) (cs : List Char) : Bool := afterKeyword? keyword.toList cs == some []

def argument? (keyword : String) (cs : List Char) : Option (List Char) :=
  match afterKeyword? keyword.toList cs with
  | some (' ' :: argument) => some argument
  | _ => none

def number? (keyword : String) (cs : List Char) : Option Float :=
  (argument? keyword cs).bind Number.readPlain?

def words? (keyword : String) (cs : List Char) : Option (List Char) :=
  (argument? keyword cs).filter fun argument => !argument.isEmpty && argument.all (· != '\n')

inductive Production where
  | forward | forwardBy | left | leftBy | right | rightBy | colorOff | color | width | say
  deriving DecidableEq, Repr

def Production.read? (cs : List Char) : Production → Option (Command Float)
  | forward => if isKeyword "forward" cs then some (.step 1.0) else none
  | forwardBy => (number? "forward" cs).map .step
  | left => if isKeyword "left" cs then some (.turnLeft 90.0) else none
  | leftBy => (number? "left" cs).map .turnLeft
  | right => if isKeyword "right" cs then some (.turnRight 90.0) else none
  | rightBy => (number? "right" cs).map .turnRight
  | colorOff => if isKeyword "color off" cs || isKeyword "colour off" cs then some (.color none) else none
  | color =>
      ((words? "color" cs).or (words? "colour" cs)).map fun name => .color (some (String.ofList (Text.lower name)))
  | width => (number? "width" cs).map .width
  | say => (words? "say" cs).map fun text => .say (String.ofList text)

def Production.order : List Production :=
  [forward, forwardBy, left, leftBy, right, rightBy, colorOff, color, width, say]

def command? (cs : List Char) : Option (Command Float) := Production.order.findSome? (·.read? cs)

def action? (line : String) : Option (Action Float) :=
  let cs := Text.trim line.toList
  (command? cs).map (⟨·, String.ofList cs⟩)

def isSentinel (line : String) : Bool := Text.lower (Text.trim line.toList) == "draw mode".toList

end Line
end TurtleBoard
