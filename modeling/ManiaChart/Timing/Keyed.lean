/-
The two series of a timing in maps ordered by time, and looking them up by a range of
keys: the last entry up to a time, or the first one of all when nothing is in the
range.

`KeyedTiming.ofPoints?` keeps the maps that timing points are parted into. Whatever
is looked up there is what the search in `Timing` finds.
-/
import ManiaChart.Timing.Basic

namespace ManiaChart

/-- The entry of an ordered map that is active at a time: the last one up to it, or
the first one of all. -/
def entryAt? {α : Type} (map : Std.TreeMap Int α) (t : Int) : Option (Int × α) :=
  map[*...=t].toList.getLast?.or map.toList.head?

/-- Tempo and scroll speed along the time axis, each entry under its millisecond. -/
structure KeyedTiming where
  stretches : Std.TreeMap Int TempoStretch
  /-- The multipliers of the scroll points. -/
  speeds : Std.TreeMap Int Binary64

namespace KeyedTiming

/-- The timing of parted timing points, none when no point defines a tempo. -/
def ofParted? (parted : Timing.Parted) : Option KeyedTiming :=
  if parted.tempo.isEmpty then none
  else
    let stretches := Timing.stretchesFrom 0 parted.tempoPoints
    some { stretches := .ofList (stretches.map fun stretch => (stretch.point.time, stretch)), speeds := parted.scroll }

/-- The timing of timing points shifted by `offset` milliseconds, with the written
times of those that are skipped, in order of time. -/
def ofPoints? (offset : Int) (points : List TimingPoint) : Option (KeyedTiming × List Int) :=
  let parted := Timing.Parted.addAll {} (Timing.align offset points)
  (ofParted? parted).map fun timing => (timing, parted.skipped.toList)

/-- The stretch a time falls into, the first one for any earlier time. -/
def stretchAt? (timing : KeyedTiming) (t : Int) : Option TempoStretch :=
  (entryAt? timing.stretches t).map Prod.snd

/-- The tempo point active at a time. -/
def tempoAt? (timing : KeyedTiming) (t : Int) : Option TempoPoint := (timing.stretchAt? t).map TempoStretch.point

def scrollAt (timing : KeyedTiming) (t : Int) : Binary64 :=
  match entryAt? timing.speeds t with
  | some (_, multiplier) => multiplier
  | none => ScrollPoint.standard

/-- The tempo points in order of time. -/
def tempoPoints (timing : KeyedTiming) : List TempoPoint :=
  timing.stretches.toList.map fun (_, stretch) => stretch.point

/-- The scroll points in order of time. -/
def scrollPoints (timing : KeyedTiming) : List ScrollPoint :=
  timing.speeds.toList.map fun (time, multiplier) => { time, multiplier }

end KeyedTiming

end ManiaChart
