/-
What a chart is made from: a beatmap together with the layout and the timing
found for it.

`Beatmap.plan` is where whole beatmaps are refused. From a plan on, everything
else follows; records that cannot be used are left out and reported.
-/
import ManiaChart.Chart.Basic
import ManiaChart.Conversion.Stroke

namespace ManiaChart

/-- A beatmap that can be made into a chart. -/
structure Plan where
  beatmap : Beatmap
  layout : LaneLayout
  timing : Timing
  /-- The written times of scroll points that are left out. -/
  skipped : List Int
  /-- Where the last measure ends. -/
  stop : Int

namespace Plan

/-- Milliseconds added to every time of a beatmap. -/
def alignmentOffset : Int := 38

/-- The game mode of beatmaps with keys. -/
def maniaMode : Nat := 3

end Plan

/-- The plan for a beatmap, or why there is none. Its last measure ends at the
last hit object of the file. -/
def Beatmap.plan (beatmap : Beatmap) : Except Refusal Plan := do
  if beatmap.timingPoints.isEmpty then throw .noTimingPoints
  let some last := beatmap.hitObjects.back? | throw .noHitObjects
  if beatmap.general.mode ≠ Plan.maniaMode then throw (.otherGameMode beatmap.general.mode)
  let keyCount := beatmap.difficulty.keyCount
  let some layout := LaneLayout.ofKeyCount? keyCount | throw (.noLayout keyCount)
  let some (timing, skipped) := Timing.ofPoints? Plan.alignmentOffset beatmap.timingPoints.toList
    | throw .noTempo
  return { beatmap, layout, timing, skipped, stop := last.time + Plan.alignmentOffset }

namespace Plan

def media (plan : Plan) : Media := .ofBeatmap plan.beatmap

/-- What each hit object becomes, or why it is left out. -/
def placements (plan : Plan) : List (Except Omission Placement) :=
  plan.beatmap.hitObjects.toList.map (Placement.ofObject plan.layout alignmentOffset)

/-- The strokes of the chart, those of the hit objects last. -/
def strokes (plan : Plan) : List Stroke :=
  Stroke.ofStart plan.media ++ Stroke.ofVideos alignmentOffset plan.media ++
    Stroke.ofSamples alignmentOffset plan.media ++ Stroke.ofTempoPoints plan.timing ++
    Stroke.ofScrollPoints plan.timing ++ Stroke.ofMeasureLines plan.timing plan.stop ++
    Stroke.ofPlacements (plan.placements.filterMap Except.toOption)

/-- The records left out: scroll points in order of time, then events and hit
objects in the order of the file. -/
def omissions (plan : Plan) : List Omission :=
  plan.skipped.map .scrollNotFinite ++ MediaEvent.omissions plan.beatmap.events.toList ++
    plan.placements.filterMap Omission.of?

/-! ## The chart -/

def draft (plan : Plan) (rule : LongNoteRule) : Draft :=
  Stroke.drawAll rule { timing := plan.timing, laneCount := plan.layout.mode.laneCount } plan.strokes

def header (plan : Plan) (rule : LongNoteRule) : Chart.Header where
  mode := plan.layout.mode
  title := plan.beatmap.metadata.title
  subTitle := "[" ++ plan.beatmap.metadata.version ++ "]"
  genre := toString plan.layout.keyCount ++ "K"
  artist := plan.beatmap.metadata.artist
  subArtist := plan.beatmap.metadata.creator
  stageFile := plan.media.background.getD ""
  backBmp := plan.media.background.getD ""
  preview := plan.media.music
  bpm := plan.timing.bpmAt 0
  longNoteRule := rule
  wavFiles := plan.media.wavFiles
  bgaFiles := plan.media.bgaFiles

def chart (plan : Plan) (identity : Chart.Identity) (rule : LongNoteRule) : Chart :=
  let draft := plan.draft rule
  { Chart.assemble (plan.header rule) draft.toList draft.notes identity with fromBeatmap := true }

end Plan

structure Converted where
  chart : Chart
  omissions : List Omission
deriving DecidableEq

/-- Converts a beatmap into a chart with a rule for its long notes. -/
def Beatmap.convert (beatmap : Beatmap) (identity : Chart.Identity) (rule : LongNoteRule) :
    Except Refusal Converted := do
  let plan ← beatmap.plan
  return ⟨plan.chart identity rule, plan.omissions⟩

end ManiaChart
