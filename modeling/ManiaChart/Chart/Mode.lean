/-
The play modes of key charts and their lanes.
-/

namespace ManiaChart

/-- A play mode, named for its keys. -/
inductive Mode
  /-- Five keys and a scratch. -/
  | beat5K
  /-- Seven keys and a scratch. -/
  | beat7K
  /-- Five keys and a scratch on each side. -/
  | beat10K
  /-- Seven keys and a scratch on each side. -/
  | beat14K
  /-- Nine buttons. -/
  | popn9K
deriving DecidableEq

namespace Mode

/-- The number of lanes, those of scratches included. -/
def laneCount : Mode → Nat
  | beat5K => 6
  | beat7K => 8
  | beat10K => 12
  | beat14K => 16
  | popn9K => 9

/-- The lanes of scratches. -/
def scratchLanes : Mode → List Nat
  | beat5K => [5]
  | beat7K => [7]
  | beat10K => [5, 11]
  | beat14K => [7, 15]
  | popn9K => []

def isScratch (mode : Mode) (lane : Nat) : Bool := mode.scratchLanes.contains lane

end Mode

end ManiaChart
