/-
Which lane of a play mode each column of a beatmap is played on, by the number
of columns.
-/
import ManiaChart.Chart.Mode

namespace ManiaChart

/-- The lanes for the columns of one key count. -/
structure LaneLayout where
  keyCount : Nat
  mode : Mode
  /-- The lane of each column, from the left, then unused places up to the
  number of lanes. -/
  columns : List (Option Nat)
deriving DecidableEq

namespace LaneLayout

/-- Columns on the given lanes, then the unused places of the mode. -/
def onLanes (mode : Mode) (lanes : List Nat) : LaneLayout where
  keyCount := lanes.length
  mode := mode
  columns := lanes.map some ++ List.replicate (mode.laneCount - lanes.length) none

/-- The layout for a key count, none for a count that is not supported. With
an even number of keys for an odd number of lanes, the first column is the
scratch. -/
def ofKeyCount? : Nat → Option LaneLayout
  | 4 => some (onLanes .beat7K [0, 2, 4, 6])
  | 5 => some (onLanes .beat5K [0, 1, 2, 3, 4])
  | 6 => some (onLanes .beat7K [0, 1, 2, 4, 5, 6])
  | 7 => some (onLanes .beat7K [0, 1, 2, 3, 4, 5, 6])
  | 8 => some (onLanes .beat7K [7, 0, 1, 2, 3, 4, 5, 6])
  | 9 => some (onLanes .popn9K [0, 1, 2, 3, 4, 5, 6, 7, 8])
  | 10 => some (onLanes .beat10K [0, 1, 2, 3, 4, 6, 7, 8, 9, 10])
  | 12 => some (onLanes .beat10K [5, 0, 1, 2, 3, 4, 6, 7, 8, 9, 10, 11])
  | 14 => some (onLanes .beat14K [0, 1, 2, 3, 4, 5, 6, 8, 9, 10, 11, 12, 13, 14])
  | 16 => some (onLanes .beat14K [7, 0, 1, 2, 3, 4, 5, 6, 8, 9, 10, 11, 12, 13, 14, 15])
  | _ => none

/-- The width of the field that the columns part evenly. -/
def fieldWidth : Int := 512

/-- The column of a horizontal place; places beside the field belong to the
outermost columns. -/
def columnAt (layout : LaneLayout) (x : Int) : Nat :=
  (max 0 (min ((layout.keyCount : Int) - 1) (Int.fdiv (x * layout.keyCount) fieldWidth))).toNat

/-- The lane of a horizontal place. -/
def laneAt? (layout : LaneLayout) (x : Int) : Option Nat := layout.columns[layout.columnAt x]?.join

end LaneLayout

end ManiaChart
