import TurtleBoard.Player

/-! A player rehearsed without a terminal: its clock moves only while it waits for an event, the events come from a
list of steps, and pictures of the screen are taken between the steps. The first picture waits until a text is on the
screen and then for a few frames more, each later one for the frames after its step. -/
namespace TurtleBoard

inductive Happening (ω : Type) where
  | events (events : List Event)
  | resize (cols rows : Nat)
  | resizeSilently (cols rows : Nat)
  | afar (change : ω → ω)
  | wait (frames : Nat)

structure Rehearsal (ω : Type) where
  player : Player ω
  screen : Grid
  awaited : List Char
  steps : List (Happening ω)
  ending : List Event
  clock : Duration := .zero
  queue : List Event := []
  isSeen : Bool := false
  countdown : Nat := 0
  pictures : List Grid := []

namespace Rehearsal
variable {ω : Type}

def settlingFrames : Nat := 6

inductive Wait (ω : Type) where
  | event (event : Event) (rehearsal : Rehearsal ω)
  | passed (rehearsal : Rehearsal ω)
  | over (rehearsal : Rehearsal ω)

def pass (r : Rehearsal ω) : Rehearsal ω :=
  { r with clock := r.clock + r.player.board.config.frameInterval, countdown := r.countdown - 1 }

def look (r : Rehearsal ω) : Rehearsal ω :=
  if !r.isSeen && r.screen.hasText r.awaited then { r with isSeen := true, countdown := settlingFrames } else r

def takePicture (r : Rehearsal ω) : Rehearsal ω := { r with pictures := r.screen :: r.pictures }

def happen (r : Rehearsal ω) : Happening ω → Rehearsal ω
  | .events events => { r with queue := r.queue ++ events, countdown := settlingFrames }
  | .resize cols rows =>
      { r with screen := r.screen.fit cols rows, queue := r.queue ++ [.resize cols rows], countdown := settlingFrames }
  | .resizeSilently cols rows => { r with screen := r.screen.fit cols rows, countdown := settlingFrames }
  | .afar change =>
      { r with player := { r.player with link := change r.player.link }, countdown := settlingFrames }
  | .wait frames => { r with countdown := frames }

def proceed (r : Rehearsal ω) : List (Happening ω) → Wait ω
  | [] =>
      match r.ending with
      | [] => .over r
      | event :: queue => .event event { r.takePicture with steps := [], ending := [], queue }
  | step :: steps =>
      let r := { r.takePicture.happen step with steps }
      match r.queue with
      | event :: queue => .event event { r with queue }
      | [] => if r.countdown = 0 then r.proceed steps else .passed r.pass

def wait (r : Rehearsal ω) : Wait ω :=
  match r.queue with
  | event :: queue => .event event { r with queue }
  | [] =>
      let r := r.look
      if !r.isSeen || r.countdown != 0 then .passed r.pass else r.proceed r.steps

variable [Link ω]

def play : Nat → Rehearsal ω → Rehearsal ω
  | 0, r => r
  | frames + 1, r =>
      let (paints, player) := r.player.frame r.clock r.screen.rows
      match wait { r with player, screen := r.screen.paintAll paints } with
      | .over r => r
      | .passed r => play frames r
      | .event event r =>
          match r.player.handle event with
          | none => r
          | some (paints, player) => play frames { r with player, screen := r.screen.paintAll paints }

def run (frames : Nat) (r : Rehearsal ω) : List (Option Grid) :=
  let pictures := (play frames r).pictures.reverse
  pictures.map some ++ List.replicate (r.steps.length + 1 - pictures.length) none

end Rehearsal
end TurtleBoard
