/-
Tempo points and scroll points: the two kinds of change along the time axis
of a chart.
-/
import ManiaChart.Binary64.Arithmetic
import ManiaChart.Timing.Lookup

namespace ManiaChart

/-- A change of tempo. -/
structure TempoPoint where
  time : Int
  /-- Milliseconds per beat. -/
  beatLength : Binary64
deriving DecidableEq

namespace TempoPoint

instance : Timed TempoPoint := ⟨time⟩

/-- Beats per minute. -/
def bpm (point : TempoPoint) : Binary64 := 60000 / point.beatLength

/-- Milliseconds per measure. A measure has four beats, whatever meter is
written. -/
def measureLength (point : TempoPoint) : Binary64 := point.beatLength * 4

/-- Measures from the point to `t` at its tempo, negative for an earlier time.
A tempo without a positive measure length passes no measures. -/
def measuresTo (point : TempoPoint) (t : Int) : Binary64 :=
  if 0 < point.measureLength then Binary64.ofInt (t - point.time) / point.measureLength else 0

end TempoPoint

/-- A change of scroll speed. -/
structure ScrollPoint where
  time : Int
  multiplier : Binary64
deriving DecidableEq

instance : Timed ScrollPoint := ⟨ScrollPoint.time⟩

/-- The scroll speed where nothing changes it. -/
def ScrollPoint.standard : Binary64 := 1

end ManiaChart
