import TurtleBoard.Config
import TurtleBoard.Json.Float
import TurtleBoard.Json.Reader

/-! The config file. A field that is missing has its default; a file that is not wholly right gives the defaults
throughout. -/
namespace TurtleBoard

def Json.orDefault {β : Type} (read : Json → Option β) (default : β) : Option Json → Option β
  | none => some default
  | some value => read value

namespace KeyBindings

def fieldNames : List String := ["accelerate_hold", "accelerate_latch", "quit"]

def ofJson? (json : Json) : Option KeyBindings := do
  let defaults : KeyBindings := {}
  match ← json.fields? fieldNames with
  | [hold, latch, quit] =>
      return {
        accelerateHold := ← Json.orDefault Json.text? defaults.accelerateHold hold
        accelerateLatch := ← Json.orDefault Json.text? defaults.accelerateLatch latch
        quit := ← Json.orDefault Json.text? defaults.quit quit }
  | _ => none

end KeyBindings

namespace Config

def fieldNames : List String := [
  "first_step_delay_ms", "step_delay_ms", "bubble_ttl_ms", "poll_interval_ms", "frame_interval_ms",
  "request_timeout_ms", "steps_in_each_direction", "spawn_fraction", "walk_frame_distance", "walk_frames",
  "walk_frame_size", "key_bindings"]

def millis? : Json → Option Nat := Json.natBelow? Number.wordLimit
def count? : Json → Option Nat := Json.natBelow? 4294967296

def ofJson? (json : Json) : Option Config := do
  let defaults : Config := {}
  match ← json.fields? fieldNames with
  | [firstStepDelay, stepDelay, bubbleTtl, pollInterval, frameInterval, requestTimeout, steps, spawnFraction,
      walkFrameDistance, walkFrames, walkFrameSize, keyBindings] =>
      return {
        firstStepDelayMs := ← Json.orDefault millis? defaults.firstStepDelayMs firstStepDelay
        stepDelayMs := ← Json.orDefault millis? defaults.stepDelayMs stepDelay
        bubbleTtlMs := ← Json.orDefault millis? defaults.bubbleTtlMs bubbleTtl
        pollIntervalMs := ← Json.orDefault millis? defaults.pollIntervalMs pollInterval
        frameIntervalMs := ← Json.orDefault millis? defaults.frameIntervalMs frameInterval
        requestTimeoutMs := ← Json.orDefault millis? defaults.requestTimeoutMs requestTimeout
        stepsInEachDirection := ← Json.orDefault count? defaults.stepsInEachDirection steps
        spawnFraction := ← Json.orDefault Json.float? defaults.spawnFraction spawnFraction
        walkFrameDistance := ← Json.orDefault Json.float? defaults.walkFrameDistance walkFrameDistance
        walkFrames := ← Json.orDefault count? defaults.walkFrames walkFrames
        walkFrameSize := ← Json.orDefault (Json.intWithin? 2147483648) defaults.walkFrameSize walkFrameSize
        keyBindings := ← Json.orDefault KeyBindings.ofJson? defaults.keyBindings keyBindings }
  | _ => none

def ofBytes? (bytes : ByteArray) : Option Config := do
  let text ← Utf8.text? bytes
  ofJson? (← Json.read? (text.toList.map some))

def load (file : Option ByteArray) : Config := (file.bind ofBytes?).getD {}

end Config
end TurtleBoard
