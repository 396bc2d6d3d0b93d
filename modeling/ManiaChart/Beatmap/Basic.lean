/-
The records of an osu! beatmap that a key chart is made from.
-/
import ManiaChart.Binary64.Basic

namespace ManiaChart

/-- The `[General]` section. -/
structure Beatmap.General where
  /-- The audio file, relative to the beatmap's folder. -/
  audioFilename : String := ""
  /-- The game mode: 0 osu!, 1 taiko, 2 catch, 3 mania. -/
  mode : Nat := 0
deriving DecidableEq

/-- The `[Metadata]` section. -/
structure Beatmap.Metadata where
  title : String := ""
  titleUnicode : Option String := none
  artist : String := ""
  artistUnicode : Option String := none
  creator : String := ""
  version : String := ""
deriving DecidableEq

/-- The `[Difficulty]` section. -/
structure Beatmap.Difficulty where
  /-- The key count of a mania beatmap, as it is written. -/
  circleSize : Binary64 := 0
deriving DecidableEq

/-- The whole part of the circle size, within the 32-bit unsigned range. -/
def Beatmap.Difficulty.keyCount (difficulty : Beatmap.Difficulty) : Nat :=
  (difficulty.circleSize.toIntWithin 0 0xffffffff).toNat

/-- What an event plays or shows from a file. -/
inductive MediaKind
  | background
  | video
  | sample
deriving DecidableEq

namespace MediaKind

def label : MediaKind → String
  | background => "Background"
  | video => "Video"
  | sample => "Sample"

/-- Which parameter after the start time names the file. -/
def fileParameter : MediaKind → Nat
  | background | video => 0
  | sample => 1

end MediaKind

/-- The kind of an `[Events]` line: one with a file, or any other by the name
it is written with. -/
inductive EventKind
  | media (kind : MediaKind)
  | other (name : String)
deriving DecidableEq

/-- The kind that the first field of an event stands for. -/
def EventKind.ofName (name : String) : EventKind :=
  if name = "0" then .media .background
  else if name = "1" ∨ name = "Video" then .media .video
  else if name = "5" ∨ name = "Sample" then .media .sample
  else .other name

/-- A line of `[Events]`. Its time is in milliseconds. -/
structure Event where
  kind : EventKind
  startTime : Int
  params : List String
deriving DecidableEq

/-- A line of `[TimingPoints]`. -/
structure TimingPoint where
  /-- Milliseconds, with a fraction. -/
  time : Binary64
  /-- Milliseconds per beat at a point that defines a tempo; at any other, a
  negative percentage that divides the scroll speed. -/
  beatLength : Binary64
  meter : Nat := 4
  sampleSet : Nat := 0
  sampleIndex : Nat := 0
  volume : Nat := 100
  definesTempo : Bool := true
  effects : Nat := 0
deriving DecidableEq

/-- A line of `[HitObjects]`. -/
structure HitObject where
  /-- The horizontal place on a field 512 wide, which picks the column. -/
  x : Int
  y : Int
  /-- Milliseconds. -/
  time : Int
  typeFlags : Nat
  hitSound : Nat
  /-- What follows the hit sound; of a hold note the tail time comes first. -/
  params : List String
deriving DecidableEq

namespace HitObject

/-- A hold note has bit 7 among its type flags. -/
def isHoldType (typeFlags : Nat) : Bool := typeFlags.testBit 7

def isHold (object : HitObject) : Bool := isHoldType object.typeFlags

/-- The text of a hold note's tail time. -/
def tailTime? (object : HitObject) : Option String :=
  if object.isHold then object.params.head? else none

end HitObject

/-- The records of a beatmap, each list in the order of the file. -/
structure Beatmap where
  formatVersion : Option Nat := none
  general : Beatmap.General := {}
  metadata : Beatmap.Metadata := {}
  difficulty : Beatmap.Difficulty := {}
  events : Array Event := #[]
  timingPoints : Array TimingPoint := #[]
  hitObjects : Array HitObject := #[]
deriving DecidableEq

end ManiaChart
