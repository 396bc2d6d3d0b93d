/-
Drawing a chart stroke by stroke.

`Stroke.change` says once what a stroke does to the timeline at a millisecond,
and `timelineAt_draw`, `has_draw` that drawing does that and nothing else. What
a whole run leaves follows by induction on the strokes: timelines exist exactly
at the milliseconds of the strokes (`has_drawAll`), and a field of a timeline
holds the last value that a stroke wrote there, or the one it started with
(`field_drawAll`).

All of it is for strokes on lanes that exist (`Stroke.Fits`).
-/
import ManiaChart.Conversion.Stroke
import ManiaChart.Proofs.Chart.Writing

namespace ManiaChart

namespace Stroke

variable {rule : LongNoteRule} {draft : Draft} {stroke : Stroke} {strokes : List Stroke} {t : Int}

/-! ## One stroke -/

/-- The milliseconds a stroke writes to. -/
def times : Stroke → List Int
  | sound time _ | refresh time | image time _ | speed time _ _ => [time]
  | measureLine line => [line.time]
  | notes placement => placement.times

/-- A stroke with notes has them on one of the first `laneCount` lanes. -/
def Fits (laneCount : Nat) : Stroke → Prop
  | notes placement => placement.Fits laneCount
  | _ => True

/-- What a stroke does to the timeline at a millisecond. -/
def change (rule : LongNoteRule) (draft : Draft) (t : Int) (timeline : Timeline) : Stroke → Timeline
  | sound time _ => if t = time then timeline.addSoundNote draft.notes.nextId else timeline
  | refresh time => if t = time then draft.retimed t timeline else timeline
  | image time bga => if t = time then { draft.retimed t timeline with bga } else timeline
  | speed time bpm scroll => if t = time then { timeline with bpm, scroll } else timeline
  | measureLine line =>
    if t = line.time then
      { timeline with hasMeasureLine := true, measure := line.measure, bpm := line.bpm, scroll := line.scroll }
    else timeline
  | notes placement => (placement.ends rule draft.notes.size).foldl (draft.putEnd t) timeline

@[simp] theorem timing_draw (rule : LongNoteRule) (draft : Draft) (stroke : Stroke) :
    (stroke.draw rule draft).timing = draft.timing := by
  cases stroke with
  | notes placement => exact draft.timing_place rule placement
  | _ => rfl

@[simp] theorem laneCount_draw (rule : LongNoteRule) (draft : Draft) (stroke : Stroke) :
    (stroke.draw rule draft).laneCount = draft.laneCount := by
  cases stroke with
  | notes placement => exact draft.laneCount_place rule placement
  | _ => rfl

theorem has_draw (h : stroke.Fits draft.laneCount) :
    (stroke.draw rule draft).Has t ↔ t ∈ stroke.times ∨ draft.Has t := by
  cases stroke with
  | notes placement => exact Draft.has_place h
  | sound time index => rw [draw, times, List.mem_singleton, Draft.has_addSound]
  | refresh time | image time => rw [draw, times, List.mem_singleton, Draft.has_refresh]
  | speed time | measureLine line => rw [draw, times, List.mem_singleton, Draft.has_write]

theorem timelineAt_draw (t : Int) (h : stroke.Fits draft.laneCount) :
    (stroke.draw rule draft).timelineAt t = stroke.change rule draft t (draft.timelineAt t) := by
  cases stroke with
  | sound time index => exact draft.timelineAt_addSound time t index
  | refresh time => exact draft.timelineAt_refresh time t id
  | image time bga => exact draft.timelineAt_refresh time t _
  | speed time bpm scroll => exact draft.timelineAt_write time t _
  | measureLine line => exact draft.timelineAt_write line.time t _
  | notes placement => exact Draft.timelineAt_place t h

/-! ## Runs -/

theorem drawAll_append (rule : LongNoteRule) (draft : Draft) (strokes more : List Stroke) :
    drawAll rule draft (strokes ++ more) = drawAll rule (drawAll rule draft strokes) more :=
  List.foldl_append

@[simp] theorem laneCount_drawAll (rule : LongNoteRule) (draft : Draft) (strokes : List Stroke) :
    (drawAll rule draft strokes).laneCount = draft.laneCount := by
  induction strokes generalizing draft with
  | nil => rfl
  | cons stroke rest ih => exact (ih (stroke.draw rule draft)).trans (laneCount_draw rule draft stroke)

/-- A run leaves timelines at the milliseconds of its strokes, and keeps those
that were there. -/
theorem has_drawAll (h : ∀ stroke ∈ strokes, stroke.Fits draft.laneCount) :
    (drawAll rule draft strokes).Has t ↔ (∃ stroke ∈ strokes, t ∈ stroke.times) ∨ draft.Has t := by
  induction strokes generalizing draft with
  | nil => simp [drawAll]
  | cons stroke rest ih =>
    have hstroke : stroke.Fits draft.laneCount := h stroke (by simp)
    have hrest : ∀ s ∈ rest, s.Fits (stroke.draw rule draft).laneCount := fun s hs => by
      rw [laneCount_draw]
      exact h s (by simp [hs])
    show (drawAll rule (stroke.draw rule draft) rest).Has t ↔ _
    rw [ih hrest, has_draw hstroke]
    simp only [List.mem_cons, exists_eq_or_imp]
    refine ⟨?_, ?_⟩
    · intro h
      rcases h with h | h | h
      · exact .inl (.inr h)
      · exact .inl (.inl h)
      · exact .inr h
    · intro h
      rcases h with (h | h) | h
      · exact .inr (.inl h)
      · exact .inl h
      · exact .inr (.inr h)

/-- **The last writer wins.** When each stroke leaves in a field of the timeline
at `t` either what `write` tells or what was there, a run leaves the last value
told. What a stroke writes may hang on the timing and the number of lanes, which
no stroke changes. -/
theorem field_drawAll {α : Type} (field : Timeline → α) (write : Stroke → Option α)
    {timing : Timing} {lanes : Nat}
    (step : ∀ (draft : Draft) (stroke : Stroke), draft.timing = timing →
      draft.laneCount = lanes → stroke ∈ strokes → ∀ timeline,
        field (stroke.change rule draft t timeline) = (write stroke).getD (field timeline))
    (htiming : draft.timing = timing) (hlanes : draft.laneCount = lanes)
    (h : ∀ stroke ∈ strokes, stroke.Fits lanes) :
    field ((drawAll rule draft strokes).timelineAt t) =
      (strokes.filterMap write).getLast?.getD (field (draft.timelineAt t)) := by
  induction strokes generalizing draft with
  | nil => rfl
  | cons stroke rest ih =>
    have hstroke : stroke.Fits lanes := h stroke (by simp)
    have hstep := step draft stroke htiming hlanes (by simp) (draft.timelineAt t)
    show field ((drawAll rule (stroke.draw rule draft) rest).timelineAt t) = _
    rw [ih (fun other s ht hl hs => step other s ht hl (by simp [hs])) ((timing_draw ..).trans htiming)
      ((laneCount_draw ..).trans hlanes) fun s hs => h s (by simp [hs]),
      timelineAt_draw t (hlanes ▸ hstroke), hstep]
    cases hw : write stroke with
    | none => simp [List.filterMap_cons_none hw]
    | some value =>
      rw [List.filterMap_cons_some hw, List.getLast?_cons, Option.getD_some, Option.getD_some]

theorem kept_drawAll {α : Type} (field : Timeline → α)
    (step : ∀ (draft : Draft), ∀ stroke ∈ strokes, ∀ timeline,
      field (stroke.change rule draft t timeline) = field timeline)
    (h : ∀ stroke ∈ strokes, stroke.Fits draft.laneCount) :
    field ((drawAll rule draft strokes).timelineAt t) = field (draft.timelineAt t) := by
  have hnone : strokes.filterMap (fun _ => (none : Option α)) = [] := List.filterMap_eq_nil_iff.2 fun _ _ => rfl
  rw [field_drawAll field (fun _ => none) (fun draft stroke _ _ hmem timeline => step draft stroke hmem timeline)
    rfl rfl h, hnone]
  rfl

end Stroke

end ManiaChart
