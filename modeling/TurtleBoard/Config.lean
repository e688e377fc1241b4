import TurtleBoard.Duration

/-! What a user can configure, with its defaults. -/
namespace TurtleBoard

structure KeyBindings where
  accelerateHold : String := "Shift"
  accelerateLatch : String := "Tab"
  quit : String := "q"
  deriving DecidableEq, Repr

structure Config where
  firstStepDelayMs : Nat := 500
  stepDelayMs : Nat := 500
  bubbleTtlMs : Nat := 5000
  pollIntervalMs : Nat := 1000
  frameIntervalMs : Nat := 16
  requestTimeoutMs : Nat := 250
  stepsInEachDirection : Nat := 15
  spawnFraction : Float := 0.6
  walkFrameDistance : Float := 2.0
  walkFrames : Nat := 5
  walkFrameSize : Int := 50
  keyBindings : KeyBindings := {}
  deriving BEq, Repr

namespace Config

def firstStepDelay (c : Config) : Duration := .ofMillis c.firstStepDelayMs
def stepDelay (c : Config) : Duration := .ofMillis c.stepDelayMs
def bubbleTtl (c : Config) : Duration := .ofMillis c.bubbleTtlMs
def pollInterval (c : Config) : Duration := .ofMillis c.pollIntervalMs
def requestTimeout (c : Config) : Duration := .ofMillis c.requestTimeoutMs

/- At least a millisecond, so that time passes between frames. -/
def frameInterval (c : Config) : Duration := .ofMillis (max c.frameIntervalMs 1)

end Config
end TurtleBoard
