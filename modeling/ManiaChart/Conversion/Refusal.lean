/-
Why a beatmap cannot be made into a chart, and why single records are left out.
-/
import ManiaChart.Beatmap.Basic

namespace ManiaChart

/-- Why a whole beatmap is refused. -/
inductive Refusal
  | otherGameMode (mode : Nat)
  /-- No layout has this many keys. -/
  | noLayout (keyCount : Nat)
  | noTimingPoints
  /-- There are timing points, but none that defines a tempo. -/
  | noTempo
  | noHitObjects
deriving DecidableEq

def Refusal.message : Refusal → String
  | otherGameMode mode => "game mode " ++ toString mode ++ " is not osu!mania"
  | noLayout keyCount => toString keyCount ++ " keys are not supported"
  | noTimingPoints => "no timing points"
  | noTempo => "no timing point defines a tempo"
  | noHitObjects => "no hit objects"

/-- Why a single record is left out. Times are those of the beatmap. -/
inductive Omission
  /-- An event without the parameter that names its file. -/
  | noFileParameter (kind : MediaKind) (time : Int) (index : Nat)
  /-- A scroll point whose speed is not finite. -/
  | scrollNotFinite (time : Int)
  /-- A hold note whose tail time is missing or no number. -/
  | unreadableTail (time : Int) (value : String)
deriving DecidableEq

/-- The omission that came of a record, if it did not come out well. -/
def Omission.of? {α : Type} : Except Omission α → Option Omission
  | .error omission => some omission
  | .ok _ => none

def Omission.message : Omission → String
  | noFileParameter kind time index =>
    kind.label ++ " event at " ++ toString time ++ " ms has no parameter #" ++ toString index
  | scrollNotFinite time =>
    "scroll-speed point at " ++ toString time ++ " ms has no finite multiplier"
  | unreadableTail time value =>
    "hold note at " ++ toString time ++ " ms has invalid tail time `" ++ value ++ "`"

end ManiaChart
