import TurtleBoard.Arguments
import TurtleBoard.Config.Reader
import TurtleBoard.Demo
import TurtleBoard.Files
import TurtleBoard.Moves

/-! The program: what an invocation does at once, and the longer task that it leads to.

It sees the files that it asked for, and reaches a service through a link. -/
namespace TurtleBoard

inductive ListenError where
  | inUse
  | unsupported
  deriving DecidableEq, Repr

def ListenError.message : ListenError → String
  | inUse => systemMessage "Address already in use" 98
  | unsupported => systemMessage "Operation not supported" 95

inductive Failure where
  | listen (port : Nat) (cause : ListenError)
  | unreadable (path : String) (cause : FileError)
  | client (error : ClientError)
  | tooSmall (cols rows : Nat)
  deriving DecidableEq, Repr

def Failure.message : Failure → String
  | listen port cause => "Failed to listen on 0.0.0.0:" ++ toString port ++ ": " ++ cause.message
  | unreadable path cause => "Failed to read " ++ path ++ ": " ++ cause.message
  | client error => error.message
  | tooSmall cols rows => "Terminal too small: have " ++ toString cols ++ "x" ++ toString rows

structure Report where
  code : Nat := 0
  output : String := ""
  errors : String := ""
  deriving DecidableEq, Repr

namespace Report

def failed (failure : Failure) (earlier : String := "") : Report :=
  { code := 1, errors := earlier ++ "Error: " ++ failure.message ++ "\n" }

def stopped : Arguments.Stop → Report
  | .help => { output := Arguments.about ++ "\n\n" ++ Arguments.usage }
  | .misuse => { code := 2, errors := Arguments.usage }

end Report

namespace Program

def defaultConfigPath (home : String) : String := home ++ "/.config/drawboard/config.json"

def configPath (home : String) (i : Invocation) : String := i.config.getD (defaultConfigPath home)

def paths (home : String) (i : Invocation) : List String :=
  configPath home i ::
    match i.task with
    | .play scripts => scripts
    | _ => []

def config (home : String) (files : Files) (i : Invocation) : Config := .load (files.bytes (configPath home i)).toOption

inductive Outcome where
  | ended (report : Report)
  | serve (port : Nat)
  | play (config : Config) (source : Source)

def scriptSource (files : Files) (paths : List String) : Except Failure Source :=
  if paths.isEmpty then .ok (.ofScripts Demo.scripts)
  else
    match files.texts paths with
    | .ok scripts => .ok (.ofScripts scripts)
    | .error (path, cause) => .error (.unreadable path cause)

variable {ω : Type} [Link ω]

def join (base name : String) (link : ω) : Report × ω :=
  match (Client.ofBase base).createArtist name link with
  | (.ok artist, link) => ({ output := artist.toJson.pretty ++ "\n" }, link)
  | (.error error, link) => (.failed (.client error), link)

def send (client : Client) (artist : String) (earlier : String) : List String → ω → Report × ω
  | [], link => ({ errors := earlier }, link)
  | description :: moves, link =>
      match client.addMove artist description link with
      | (.ok move, link) =>
          send client artist (earlier ++ "Queued " ++ move.id ++ " (" ++ move.description ++ ")\n") moves link
      | (.error error, link) => (.failed (.client error) earlier, link)

def run (home : String) (files : Files) (i : Invocation) (link : ω) : Outcome × ω :=
  match i.task with
  | .serve port => (.serve port, link)
  | .play paths =>
      match scriptSource files paths with
      | .ok source => (.play (config home files i) source, link)
      | .error failure => (.ended (.failed failure), link)
  | .watch base => (.play (config home files i) (.remote (.ofBase base)), link)
  | .join base name =>
      let (report, link) := join base name link
      (.ended report, link)
  | .send base artist moves =>
      let (report, link) := send (.ofBase base) artist "" moves link
      (.ended report, link)

end Program
end TurtleBoard
