/-
Events, timing points and hit objects as they are read from single lines.
-/
import ManiaChart.Beatmap.Basic
import ManiaChart.Beatmap.Field

namespace ManiaChart

/-- Reads an event. Lines of a kind without a file, such as those of a
storyboard, are no events when their second field is no time. -/
def Event.ofLine (line : String) : Except LineProblem (Option Event) :=
  match Field.split line with
  | kind :: startTime :: params =>
    let kind := EventKind.ofName (String.ofList kind)
    match Field.integer "event start time" startTime, kind with
    | .ok startTime, _ => .ok (some { kind, startTime, params := params.map String.ofList })
    | .error _, .other _ => .ok none
    | .error problem, .media _ => .error problem
  | fields => .error (.tooFewFields 2 fields.length)

/-- Reads a timing point: time and beat length, then six numbers that may be
left out. -/
def TimingPoint.ofLine (line : String) : Except LineProblem TimingPoint :=
  match Field.split line with
  | time :: beatLength :: rest => do
    let time ← Field.milliseconds "timing point time" time
    let beatLength ← Field.finite "beat length" beatLength
    let meter ← Field.optional "meter" 4 rest[0]?
    let sampleSet ← Field.optional "sample set" 0 rest[1]?
    let sampleIndex ← Field.optional "sample index" 0 rest[2]?
    let volume ← Field.optional "volume" 100 rest[3]?
    let uninherited ← Field.optional "uninherited flag" 1 rest[4]?
    let effects ← Field.optional "effects" 0 rest[5]?
    return { time, beatLength, meter, sampleSet, sampleIndex, volume,
             definesTempo := uninherited ≠ 0, effects }
  | fields => .error (.tooFewFields 2 fields.length)

/-- The parameters after the hit sound. The first one of a hold note holds the
tail time and the hit sample, parted by a colon. -/
def HitObject.splitParams (typeFlags : Nat) : List (List Char) → List (List Char)
  | [] => []
  | first :: rest =>
    match isHoldType typeFlags, Text.cut? ':' first with
    | true, some (tailTime, sample) => tailTime :: sample :: rest
    | _, _ => first :: rest

/-- Reads a hit object: place, time and type, then a hit sound that may be left
out, and parameters. -/
def HitObject.ofLine (line : String) : Except LineProblem HitObject :=
  match Field.split line with
  | x :: y :: time :: typeFlags :: rest => do
    let typeFlags ← Field.natural UInt32.size "object type" typeFlags
    let x ← Field.integer "x" x
    let y ← Field.integer "y" y
    let time ← Field.integer "hit object time" time
    let hitSound ← Field.optional "hit sound" 0 rest.head?
    return { x, y, time, typeFlags, hitSound,
             params := (splitParams typeFlags rest.tail).map String.ofList }
  | fields => .error (.tooFewFields 4 fields.length)

end ManiaChart
