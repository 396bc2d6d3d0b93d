/-
From a source to a chart: reading, decoding and converting a beatmap, with all
that was passed over on the way.
-/
import ManiaChart.Beatmap.Reading
import ManiaChart.Conversion.Plan
import ManiaChart.Source.Reader

namespace ManiaChart

/-- Something passed over while a chart was loaded. -/
inductive LoadWarning
  /-- A line of the beatmap. -/
  | line (problem : Located LineProblem)
  /-- A record of the beatmap. -/
  | record (omission : Omission)
deriving DecidableEq

def LoadWarning.message : LoadWarning → String
  | line problem => "Warn: parse: " ++ (problem.map LineProblem.message).display
  | record omission => "Warn: convert: " ++ omission.message

/-- A chart with what was passed over, lines before records. -/
structure Loaded where
  chart : Chart
  warnings : List LoadWarning
deriving DecidableEq

/-- Why no chart could be loaded. -/
inductive LoadError
  | unreadable (error : ReadError)
  | unsupported (refusal : Refusal)
deriving DecidableEq

def LoadError.message : LoadError → String
  | unreadable error => "failed to read chart: " ++ error.message
  | unsupported refusal => "unsupported chart: " ++ refusal.message

namespace Chart

/-- The chart of the source of a beatmap. -/
def ofSource (source : String) (identity : Chart.Identity) (rule : LongNoteRule) :
    Except Refusal Loaded := do
  let reading := Beatmap.read source
  let converted ← reading.beatmap.convert identity rule
  return {
    chart := converted.chart
    warnings := reading.problems.toList.map .line ++ converted.omissions.map .record }

/-- The chart of a beatmap file, identified by the digests of its bytes. -/
def load (source : ByteSource) (path : String) (rule : LongNoteRule) : Except LoadError Loaded :=
  match source.read with
  | .error error => .error (.unreadable error)
  | .ok (text, digests) =>
    match ofSource text ⟨digests.md5, digests.sha256, path⟩ rule with
    | .error refusal => .error (.unsupported refusal)
    | .ok loaded => .ok loaded

end Chart

end ManiaChart
