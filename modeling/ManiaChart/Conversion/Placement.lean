/-
Where hit objects go: on which lane and at which times.
-/
import ManiaChart.Beatmap.Field
import ManiaChart.Chart.Draft
import ManiaChart.Chart.LaneLayout
import ManiaChart.Conversion.Refusal

namespace ManiaChart

/-- What a hit object becomes in a chart. -/
inductive Placement
  /-- Nothing. -/
  | skipped
  /-- A note hit once. -/
  | normal (lane : Nat) (time : Int)
  /-- A long note with its tail after its head. -/
  | long (lane : Nat) (head tail : Int)
deriving DecidableEq

namespace Placement

/-- The tail time of a hold note, as written, or why the note is left out. -/
def tailTime (object : HitObject) : Except Omission Int :=
  let text := object.tailTime?.getD ""
  match Field.integer "hold tail time" text.toList with
  | .ok time => .ok time
  | .error _ => .error (.unreadableTail object.time text)

/-- Where a hit object goes, its times shifted by `offset` milliseconds. An
object at a negative time is a placeholder; a hold note whose tail is not after
its head is hit once. -/
def ofObject (layout : LaneLayout) (offset : Int) (object : HitObject) : Except Omission Placement :=
  if object.time < 0 then .ok skipped
  else match layout.laneAt? object.x with
    | none => .ok skipped
    | some lane =>
      let time := object.time + offset
      if object.isHold then do
        let tail := (← tailTime object) + offset
        return if tail ≤ time then normal lane time else long lane time tail
      else .ok (normal lane time)

end Placement

/-- Puts what a hit object becomes into a draft; a lane that does not exist
takes nothing. -/
def Draft.place (draft : Draft) (rule : LongNoteRule) : Placement → Draft
  | .skipped => draft
  | .normal lane time => (draft.placeNote? time lane).getD draft
  | .long lane head tail => (draft.placeLong? head tail lane rule).getD draft

end ManiaChart
