import TurtleBoard.Script.Line
import TurtleBoard.Script.Sequence

/-! Whole scripts: nothing counts before the sentinel line, and after it every line that is a command does. -/
namespace TurtleBoard.Script

def ofLines (lines : List String) : List (Action Float) :=
  ((lines.dropWhile (!Line.isSentinel ·)).drop 1).filterMap Line.action?

def parse (text : String) : List (Action Float) :=
  ofLines ((Text.lines text.toList).map String.ofList)

end TurtleBoard.Script
