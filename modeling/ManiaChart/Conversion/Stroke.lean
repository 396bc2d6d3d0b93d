/-
The strokes a chart is drawn with, in the order they are drawn: the start of
the music, videos, samples, tempo points, scroll points, measure lines and hit
objects.

A later stroke at a millisecond overwrites what an earlier one left there, so
the order is part of the result.
-/
import ManiaChart.Conversion.Media
import ManiaChart.Conversion.Placement
import ManiaChart.Timing.MeasureLine

namespace ManiaChart

/-- One step of drawing a chart. -/
inductive Stroke
  | sound (time : Int) (index : Nat)
  /-- Tempo and scroll speed looked up again. -/
  | refresh (time : Int)
  /-- A background to show from here, or none, with tempo and scroll speed
  looked up again. -/
  | image (time : Int) (bga : Option Nat)
  /-- A tempo and a scroll speed. -/
  | speed (time : Int) (bpm scroll : Binary64)
  | measureLine (line : MeasureLine)
  | notes (placement : Placement)
deriving DecidableEq

namespace Stroke

def draw (rule : LongNoteRule) (draft : Draft) : Stroke → Draft
  | sound time index => draft.addSound time index
  | refresh time => draft.refresh time
  | image time bga => draft.refresh time fun timeline => { timeline with bga }
  | speed time bpm scroll => draft.write time fun timeline => { timeline with bpm, scroll }
  | measureLine line => draft.write line.time fun timeline =>
    { timeline with hasMeasureLine := true, measure := line.measure, bpm := line.bpm, scroll := line.scroll }
  | notes placement => draft.place rule placement

def drawAll (rule : LongNoteRule) (draft : Draft) (strokes : List Stroke) : Draft :=
  strokes.foldl (draw rule) draft

/-! ## Where strokes come from -/

/-- The music starts at zero, where the background image is shown. -/
def ofStart (media : Media) : List Stroke := [sound 0 0, image 0 media.backgroundIndex]

/-- Each video is shown from its start. -/
def ofVideos (offset : Int) (media : Media) : List Stroke :=
  media.videos.mapIdx fun index (time, _) => image (time + offset) (some index)

/-- Each sample sounds at its start. Sound 0 is the music. -/
def ofSamples (offset : Int) (media : Media) : List Stroke :=
  (media.samples.mapIdx fun index (time, _) =>
    [sound (time + offset) (index + 1), refresh (time + offset)]).flatten

def ofTempoPoints (timing : Timing) : List Stroke :=
  timing.tempoPoints.map fun point => speed point.time point.bpm (timing.scrollAt point.time)

def ofScrollPoints (timing : Timing) : List Stroke :=
  timing.scrollPoints.toList.map fun point => speed point.time (timing.bpmAt point.time) point.multiplier

def ofMeasureLines (timing : Timing) (stop : Int) : List Stroke :=
  (timing.measureLines stop).map measureLine

def ofPlacements (placements : List Placement) : List Stroke := placements.map notes

end Stroke

end ManiaChart
