import TurtleBoard.Ansi
import TurtleBoard.Key.Codes
import TurtleBoard.Player
import TurtleBoard.Program

/-! The command: reads the files that an invocation asks for and writes what it leaves. An animation goes to standard
output, its keys come from standard input. There are no sockets here: no service can be reached, and no port listened
on. -/
namespace TurtleBoard.Main

def fileError : IO.Error → FileError
  | .noFileOrDirectory .. => .missing
  | .inappropriateType _ code reason =>
      if code = 21 then .directory else if code = 20 then .notDirectory else .other code.toNat reason
  | .invalidArgument _ code reason => if code = 36 then .nameTooLong else .other code.toNat reason
  | .permissionDenied _ code _ => .other code.toNat "Permission denied"
  | _ => .other 5 "Input/output error"

def fileBytes (path : String) : IO (Except FileError ByteArray) := do
  if path.toList.contains '\x00' then return .error .nulInPath
  try return .ok (← IO.FS.readBinFile path)
  catch error => return .error (fileError error)

def finish (report : Report) : IO UInt32 := do
  IO.print report.output
  IO.eprint report.errors
  return UInt32.ofNat report.code

def offline : Network := ⟨"", none⟩

partial def listen (input : IO.FS.Stream) (typed : IO.Ref ByteArray) : IO Unit := do
  let bytes ← input.read 1
  if bytes.isEmpty then return
  typed.modify (· ++ bytes)
  listen input typed

def typedEvents (typed : IO.Ref ByteArray) : IO (List Event) := do
  let bytes ← typed.modifyGet fun bytes => (bytes, .empty)
  return (Key.ofText ((Utf8.chars bytes).filterMap id)).map .key

partial def animate (player : Player Network) (rows : Nat) (began : Nat) (typed : IO.Ref ByteArray)
    (queue : List Event) : IO Unit := do
  let now := Duration.ofNanos ((← IO.monoNanosNow) - began)
  let (paints, player) := player.frame now rows
  IO.print (Ansi.paints paints)
  (← IO.getStdout).flush
  let queue ← if queue.isEmpty then typedEvents typed else pure queue
  match queue with
  | [] =>
      let millis := player.board.config.frameInterval.nanos / 1000000
      IO.sleep (UInt32.ofNat (min millis 1000))
      animate player rows began typed []
  | event :: queue =>
      match player.handle event with
      | none => return
      | some (paints, player) =>
          IO.print (Ansi.paints paints)
          animate player rows began typed queue

def draws : IO Draws := (List.range 4096).mapM fun _ => IO.rand 0 2147483648

def number (name : String) (default : Nat) : IO Nat := do
  return ((← IO.getEnv name).bind String.toNat?).getD default

def play (config : Config) (source : Source) : IO UInt32 := do
  let cols ← number "COLUMNS" 80
  let rows ← number "LINES" 24
  match Player.start? (.ofConfig config (← draws)) source offline false cols rows with
  | none => finish (.failed (.tooSmall cols rows))
  | some (paints, player) =>
      let typed ← IO.mkRef ByteArray.empty
      let _ ← IO.asTask (listen (← IO.getStdin) typed) .dedicated
      IO.print (Ansi.enter ++ Ansi.paints paints)
      animate player rows (← IO.monoNanosNow) typed []
      IO.print Ansi.leave
      (← IO.getStdout).flush
      return 0

def perform (invocation : Invocation) : IO UInt32 := do
  let home := (← IO.getEnv "HOME").getD "."
  let files ← (Program.paths home invocation).mapM fun path => do return (path, ← fileBytes path)
  match (Program.run home files invocation offline).1 with
  | .ended report => finish report
  | .serve port => finish (.failed (.listen port .unsupported))
  | .play config source => play config source

end TurtleBoard.Main

def main (args : List String) : IO UInt32 :=
  match TurtleBoard.Arguments.read args with
  | .error stop => TurtleBoard.Main.finish (.stopped stop)
  | .ok invocation => TurtleBoard.Main.perform invocation
