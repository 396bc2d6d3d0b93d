/-
The finished chart: header, timelines in order of time, and notes; and what
players ask of it.
-/
import ManiaChart.Chart.Mode
import ManiaChart.Chart.Timeline

namespace ManiaChart

inductive JudgeRankScale
  | bmsRank
deriving DecidableEq

inductive TotalScale
  | bms
deriving DecidableEq

structure Chart.Header where
  mode : Mode
  title : String := ""
  subTitle : String := ""
  genre : String := ""
  artist : String := ""
  subArtist : String := ""
  banner : String := ""
  /-- The image shown while the chart is loaded. -/
  stageFile : String := ""
  backBmp : String := ""
  preview : String := ""
  /-- Beats per minute at the start. -/
  bpm : Binary64
  playLevel : String := ""
  judgeRank : Int := 3
  judgeRankScale : JudgeRankScale := .bmsRank
  total : Binary64 := 0
  totalScale : TotalScale := .bms
  longNoteRule : LongNoteRule := .longNote
  /-- The files that sound indices refer to. -/
  wavFiles : List String := []
  /-- The files that background indices refer to. -/
  bgaFiles : List String := []
deriving DecidableEq

/-- The digests of a chart's source, and its path. -/
structure Chart.Identity where
  md5 : String
  sha256 : String
  path : String
deriving DecidableEq

/-- A chart ready to be played. -/
structure Chart where
  header : Chart.Header
  identity : Chart.Identity
  /-- The rule for long notes that was asked for. -/
  requestedRule : LongNoteRule
  fromBeatmap : Bool
  /-- In ascending time. -/
  timelines : List Timeline
  notes : NoteStore
deriving DecidableEq

namespace Chart

/-- A chart of timelines in ascending time and the notes they refer to. -/
def assemble (header : Chart.Header) (timelines : List Timeline) (notes : NoteStore)
    (identity : Chart.Identity) : Chart :=
  { header, identity, requestedRule := header.longNoteRule, fromBeatmap := false, timelines, notes }

def laneNotes (chart : Chart) (lane : Nat) : List Note :=
  (chart.timelines.filterMap fun timeline => timeline.note? lane).filterMap chart.notes.get?

/-- The number of notes to hit, a long note counted once. -/
def totalNotes (chart : Chart) : Nat :=
  ((chart.timelines.flatMap Timeline.laneNotes).filterMap fun (_, id) => chart.notes.get? id).countP
    fun note => !note.isLongTail

/-- The least of the tempos in beats per minute, the header's included. -/
def minBpm (chart : Chart) : Binary64 :=
  (chart.timelines.map Timeline.bpm).foldl Binary64.minNum chart.header.bpm

/-- The greatest of the tempos in beats per minute, the header's included. -/
def maxBpm (chart : Chart) : Binary64 :=
  (chart.timelines.map Timeline.bpm).foldl Binary64.maxNum chart.header.bpm

/-- The millisecond of the last timeline with something to play or to show,
zero if there is none. -/
def lastTime (chart : Chart) : Int :=
  match chart.timelines.reverse.find? Timeline.hasContent with
  | some timeline => timeline.milliTime
  | none => 0

end Chart

end ManiaChart
