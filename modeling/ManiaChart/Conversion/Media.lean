/-
The files of a beatmap: its music, and those of its background, video and
sample events.
-/
import ManiaChart.Conversion.Refusal
import ManiaChart.Text.Blank
import ManiaChart.Text.Shape

namespace ManiaChart

/-- A trimmed file name, without the pair of quotes it may stand in. -/
def fileName (name : String) : String :=
  let trimmed := Text.trim name.toList
  String.ofList ((Text.within? '"' '"' trimmed).getD trimmed)

structure MediaEvent where
  kind : MediaKind
  /-- The start, as written. -/
  time : Int
  file : String
deriving DecidableEq

namespace MediaEvent

/-- The file of an event, or why it is left out; none for an event of a kind
without a file. -/
def ofEvent? (event : Event) : Option (Except Omission MediaEvent) :=
  match event.kind with
  | .other _ => none
  | .media kind =>
    some (match event.params[kind.fileParameter]? with
      | some name => .ok ⟨kind, event.startTime, fileName name⟩
      | none => .error (.noFileParameter kind event.startTime kind.fileParameter))

/-- The events with a file, in order. -/
def ofEvents (events : List Event) : List MediaEvent :=
  (events.filterMap ofEvent?).filterMap Except.toOption

/-- The events that should have a file and have none, in order. -/
def omissions (events : List Event) : List Omission :=
  (events.filterMap ofEvent?).filterMap Omission.of?

def ofKind (kind : MediaKind) (events : List MediaEvent) : List (Int × String) :=
  (events.filter (·.kind = kind)).map fun event => (event.time, event.file)

end MediaEvent

/-- The files of a beatmap in the order that indices count them. -/
structure Media where
  music : String
  /-- Videos, with their starts as written. -/
  videos : List (Int × String)
  /-- Samples, with their starts as written. -/
  samples : List (Int × String)
  background : Option String
deriving DecidableEq

namespace Media

/-- The files of a beatmap. Of several backgrounds the last one counts. -/
def ofBeatmap (beatmap : Beatmap) : Media :=
  let events := MediaEvent.ofEvents beatmap.events.toList
  { music := fileName beatmap.general.audioFilename
    videos := MediaEvent.ofKind .video events
    samples := MediaEvent.ofKind .sample events
    background := (MediaEvent.ofKind .background events).getLast?.map Prod.snd }

/-- The files of sounds: the music first, then the samples. -/
def wavFiles (media : Media) : List String := media.music :: media.samples.map Prod.snd

/-- The files of backgrounds: the videos, then the background image. -/
def bgaFiles (media : Media) : List String := media.videos.map Prod.snd ++ media.background.toList

def backgroundIndex (media : Media) : Option Nat := media.background.map fun _ => media.videos.length

end Media

end ManiaChart
