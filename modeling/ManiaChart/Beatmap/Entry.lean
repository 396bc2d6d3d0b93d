/-
What a line of a beatmap says, by the section it stands in: a value for one of
the records, or nothing.

A line is read on its own. `Beatmap.enter` puts what it says into the records:
a single value replaces the one before it, events, timing points and hit
objects are added at the end.
-/
import ManiaChart.Beatmap.Record

namespace ManiaChart

/-- The sections of a beatmap. -/
inductive Section
  | general
  | metadata
  | difficulty
  | events
  | timingPoints
  | hitObjects
  /-- A section that says nothing about a key chart. -/
  | ignored
deriving DecidableEq

/-- The section with a name, none for an unknown one. -/
def Section.ofName? (name : String) : Option Section :=
  match name with
  | "General" => some general
  | "Metadata" => some metadata
  | "Difficulty" => some difficulty
  | "Events" => some events
  | "TimingPoints" => some timingPoints
  | "HitObjects" => some hitObjects
  | "Editor" | "Colours" => some ignored
  | _ => none

/-- What a line says. -/
inductive Entry
  | nothing
  | audioFilename (file : String)
  | mode (mode : Nat)
  | title (text : String)
  | titleUnicode (text : String)
  | artist (text : String)
  | artistUnicode (text : String)
  | creator (name : String)
  | version (name : String)
  | circleSize (size : Binary64)
  | event (event : Event)
  | timingPoint (point : TimingPoint)
  | hitObject (object : HitObject)
deriving DecidableEq

namespace Entry

/-! ## Lines with a key and a value -/

def ofGeneral (key : String) (value : List Char) : Except LineProblem Entry :=
  match key with
  | "AudioFilename" => .ok (audioFilename (String.ofList value))
  | "Mode" => (Field.natural UInt8.size "Mode" value).map mode
  | _ => .ok nothing

def ofMetadata (key : String) (value : List Char) : Except LineProblem Entry :=
  let text := String.ofList value
  .ok (match key with
    | "Title" => title text
    | "TitleUnicode" => titleUnicode text
    | "Artist" => artist text
    | "ArtistUnicode" => artistUnicode text
    | "Creator" => creator text
    | "Version" => version text
    | _ => nothing)

def ofDifficulty (key : String) (value : List Char) : Except LineProblem Entry :=
  match key with
  | "CircleSize" => (Field.number "CircleSize" value).map circleSize
  | _ => .ok nothing

/-- Reads the two sides of the first colon of a line, trimmed. -/
def ofPair (read : String → List Char → Except LineProblem Entry) (line : String) :
    Except LineProblem Entry :=
  match Text.cut? ':' line.toList with
  | some (key, value) => read (String.ofList (Text.trim key)) (Text.trim value)
  | none => .error .noColon

/-! ## All lines -/

/-- Lines of `[Events]` that start with a space or an underscore are commands
to the storyboard object above them. -/
def isStoryboardCommand (line : String) : Bool :=
  match line.toList with
  | ' ' :: _ | '_' :: _ => true
  | _ => false

/-- What a line of a section says, or what is wrong with it. -/
def ofLine (sect : Section) (line : String) : Except LineProblem Entry :=
  match sect with
  | .general => ofPair ofGeneral line
  | .metadata => ofPair ofMetadata line
  | .difficulty => ofPair ofDifficulty line
  | .events =>
    if isStoryboardCommand line then .ok nothing
    else (Event.ofLine line).map fun read => (read.map event).getD nothing
  | .timingPoints => (TimingPoint.ofLine line).map timingPoint
  | .hitObjects => (HitObject.ofLine line).map hitObject
  | .ignored => .ok nothing

end Entry

/-- Puts what a line says into the records. -/
def Beatmap.enter (beatmap : Beatmap) : Entry → Beatmap
  | .nothing => beatmap
  | .audioFilename file => { beatmap with general.audioFilename := file }
  | .mode mode => { beatmap with general.mode := mode }
  | .title text => { beatmap with metadata.title := text }
  | .titleUnicode text => { beatmap with metadata.titleUnicode := some text }
  | .artist text => { beatmap with metadata.artist := text }
  | .artistUnicode text => { beatmap with metadata.artistUnicode := some text }
  | .creator name => { beatmap with metadata.creator := name }
  | .version name => { beatmap with metadata.version := name }
  | .circleSize size => { beatmap with difficulty.circleSize := size }
  | .event event => { beatmap with events := beatmap.events.push event }
  | .timingPoint point => { beatmap with timingPoints := beatmap.timingPoints.push point }
  | .hitObject object => { beatmap with hitObjects := beatmap.hitObjects.push object }

end ManiaChart
