/-! Two scripts that are played when none is given. -/
namespace TurtleBoard.Demo

def house : String := "draw mode

// roof
say Building the roof
color red
right 30
forward 5
right 120
forward 5
right 30

// walls
say Building the walls
color black
forward 5
right
forward 5
right
forward 5
right
forward 5
right

// walk to the door
color off
forward 5
right
forward
right

// door
say Building the door
color green
forward 2
left
forward
left
forward 2
left
forward

// step away
color off
forward 3
left
say Done!"

def star : String := "draw mode

say Let's start...
right 18
color red

forward 7
say One...
right 144

forward 7
say Two...
right 144

forward 7
say Three...
right 144

forward 7
say Four...
right 144

forward 7
say We've got a star!
right 144"

def scripts : List String := [house, star]

end TurtleBoard.Demo
