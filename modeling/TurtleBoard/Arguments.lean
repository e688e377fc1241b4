import TurtleBoard.Text

/-! The command line: one of five tasks with its operands, and options that may stand anywhere among them.

An option takes its value from the same word, after `=` or right after its letter, or from the next one; a value in the
next word does not start with a hyphen. After `--` every word is an operand. -/
namespace TurtleBoard

inductive Task where
  | serve (port : Nat)
  | play (scripts : List String)
  | watch (base : String)
  | join (base name : String)
  | send (base artist : String) (moves : List String)
  deriving DecidableEq, Repr

structure Invocation where
  config : Option String := none
  task : Task
  deriving DecidableEq, Repr

namespace Arguments

inductive Stop where
  | help
  | misuse
  deriving DecidableEq, Repr

inductive TaskName where
  | serve | play | watch | join | send
  deriving DecidableEq, Repr

def TaskName.ofWord? : String → Option TaskName
  | "serve" => some serve
  | "play" => some play
  | "watch" => some watch
  | "join" => some join
  | "send" => some send
  | _ => none

def defaultPort : Nat := 8080

inductive OptionName where
  | config | port
  deriving DecidableEq, Repr

structure Level where
  task : Option TaskName := none
  config : Option String := none
  port : Option Nat := none
  operands : List String := []
  pending : Option (OptionName × List Char) := none

def TaskName.most? : TaskName → Option Nat
  | serve => some 0
  | watch => some 1
  | join => some 2
  | play | send => none

inductive Word where
  | operand
  | separator
  | help
  | option (name : OptionName) (value : Option (List Char))
  | unknown
  deriving DecidableEq, Repr

namespace Word

def splitLong (cs : List Char) : List Char × Option (List Char) :=
  match cs.dropWhile (· != '=') with
  | _ :: value => (cs.takeWhile (· != '='), some value)
  | [] => (cs, none)

def ofLong (hasPort : Bool) (cs : List Char) : Word :=
  match splitLong cs with
  | (name, value) =>
      if name = "help".toList ∧ value = none then help
      else if name = "config".toList then option .config value
      else if name = "port".toList ∧ hasPort then option .port value
      else unknown

def shortValue : List Char → Option (List Char)
  | [] => none
  | '=' :: value => some value
  | value => some value

def ofShort (hasPort : Bool) : List Char → Word
  | 'h' :: _ => help
  | 'p' :: value => if hasPort then option .port (shortValue value) else unknown
  | _ => unknown

def classify (hasPort : Bool) : List Char → Word
  | ['-', '-'] => separator
  | '-' :: '-' :: long => ofLong hasPort long
  | '-' :: c :: short => ofShort hasPort (c :: short)
  | _ => operand

end Word

def port? : List Char → Option Nat
  | '-' :: digits => if Number.allDigits digits ∧ Number.digitsValue digits = 0 then some 0 else none
  | digits => Text.natBelow? 65536 digits

namespace Level

def hasPort (level : Level) : Bool := level.task == some .serve

def setOption (level : Level) (name : OptionName) (value : List Char) : Except Stop Level :=
  match name with
  | .config =>
      if level.config.isSome || value.isEmpty then .error .misuse
      else .ok { level with config := some (String.ofList value) }
  | .port =>
      match level.port, port? value with
      | none, some port => .ok { level with port := some port }
      | _, _ => .error .misuse

def addOperand (level : Level) (word : String) : Except Stop Level :=
  match level.task with
  | none => .error .misuse
  | some task =>
      if task.most?.any fun most => most ≤ level.operands.length then .error .misuse
      else if task = .play ∧ word = "" then .error .misuse
      else .ok { level with operands := level.operands ++ [word] }

def settle (level : Level) : Except Stop Level :=
  match level.pending with
  | some (name, value) => setOption { level with pending := none } name value
  | none => .ok level

def isValue (word : String) : Bool := Word.classify false word.toList == .operand

/- What the words on a task's level, or above it up to the name of a task, come to. A pending option is looked at when
another option or a request for help comes, but not at the name of a task. -/
def read (level : Level) : List String → Except Stop (Level × List String)
  | [] => .ok (level, [])
  | word :: words =>
      match Word.classify level.hasPort word.toList with
      | .operand =>
          if level.task.isNone then .ok (level, word :: words)
          else do (← level.addOperand word).read words
      | .separator => do return (← words.foldlM addOperand level, [])
      | .help => do
          let _ ← level.settle
          throw .help
      | .unknown => .error .misuse
      | .option name (some value) => do (← (← level.settle).setOption name value).read words
      | .option name none =>
          match words with
          | value :: words =>
              if isValue value then do
                let level ← level.settle
                read { level with pending := some (name, value.toList) } words
              else .error .misuse
          | [] => .error .misuse

def task? (level : Level) : Option Task :=
  match level.task, level.operands with
  | some .serve, [] => some (.serve (level.port.getD defaultPort))
  | some .play, scripts => some (.play scripts)
  | some .watch, [base] => some (.watch base)
  | some .join, [base, name] => some (.join base name)
  | some .send, base :: artist :: move :: moves => some (.send base artist (move :: moves))
  | _, _ => none

end Level

def help : List String → Stop
  | [] => .help
  | word :: words => if words.isEmpty && (word == "help" || (TaskName.ofWord? word).isSome) then .help else .misuse

/- Reads the words after the program's name. A config file given after the name of the task goes before one given
before it. Whether what comes before that name is right is seen last, so that help can still be had. -/
def read (words : List String) : Except Stop Invocation := do
  match ← Level.read {} words with
  | (_, []) => throw .misuse
  | (above, name :: words) =>
      if name = "help" then throw (help words)
      let some task := TaskName.ofWord? name | throw .misuse
      let (level, _) ← Level.read { task := some task } words
      let level ← level.settle
      let above ← above.settle
      let some task := level.task? | throw .misuse
      return { config := level.config <|> above.config, task }

def usage : String := "Usage: drawboard [OPTIONS] <COMMAND>

Commands:
  serve  Run the artist/move service
  play   Animate one actor per script file. Plays the demos when no file is given
  watch  Animate the artists of a running service
  join   Register an artist and print it
  send   Queue moves for an artist
  help   Print this message or the help of the given subcommand(s)

Options:
      --config <CONFIG>  Board config file (defaults to ~/.config/drawboard/config.json)
  -h, --help             Print help
"

def about : String := "Turtle-graphics actors animated in the terminal"

end Arguments
end TurtleBoard
