/-
Measure lines: where a chart draws the borders of its measures.

Each stretch of one tempo is measured on its own, from its tempo point to the
next one, the last stretch to the end of the chart.
-/
import ManiaChart.Timing.Basic

namespace ManiaChart

/-- A measure line at a time, with the values of the timeline that shows it. -/
structure MeasureLine where
  time : Int
  measure : Binary64
  bpm : Binary64
  scroll : Binary64
deriving DecidableEq

namespace Timing

/-- A stretch of more measures than this gets lines at its two ends only. -/
def maxMeasures : Binary64 := 10000

/-- The line at a time with the values that are active there. -/
def lineAt (timing : Timing) (t : Int) : MeasureLine :=
  ⟨t, timing.measureAt t, timing.bpmAt t, timing.scrollAt t⟩

/-- The line `k` measures of the given length after the first line of a
stretch. -/
def lineAfter (timing : Timing) (first : MeasureLine) (measureLength : Binary64) (k : Nat) :
    MeasureLine :=
  let time := first.time + (Binary64.ofInt k * measureLength).toInt64
  { time, measure := first.measure + Binary64.ofInt k, bpm := first.bpm, scroll := timing.scrollAt time }

/-- The lines of the stretch from a tempo point to `stop`: one for each whole
measure that fits, the first at the tempo point. -/
def stretchLines (timing : Timing) (point : TempoPoint) (stop : Int) : List MeasureLine :=
  let measures := Binary64.ofInt (stop - point.time) / point.measureLength
  if maxMeasures < measures then [timing.lineAt point.time, timing.lineAt stop]
  else
    let first := { timing.lineAt point.time with bpm := point.bpm }
    (List.range (measures.toInt64 + 1).toNat).map (timing.lineAfter first point.measureLength)

/-- The ends of the stretches, the last one at `stop`. -/
def stretchEnds (timing : Timing) (stop : Int) : List Int :=
  timing.tempoPoints.tail.map TempoPoint.time ++ [stop]

/-- The measure lines of a chart that ends at `stop`, stretch by stretch. -/
def measureLines (timing : Timing) (stop : Int) : List MeasureLine :=
  (timing.tempoPoints.zip (timing.stretchEnds stop)).flatMap fun (point, stop) =>
    timing.stretchLines point stop

end Timing

end ManiaChart
