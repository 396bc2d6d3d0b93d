/-
The milliseconds at which a converted chart has timelines: those its records
name (`Plan.Marks`), each once and in ascending order.

Drawing creates timelines one millisecond at a time, so both directions follow
from the times of the strokes: each stroke comes from a record that marks its
times, and each record that marks a time has a stroke there.
-/
import ManiaChart.Proofs.Conversion.LastWriter

namespace ManiaChart

/-! ## Events with a file -/

/-- Whether an event is of a kind and names its file. -/
def Event.Names (kind : MediaKind) (event : Event) : Prop :=
  event.kind = .media kind ∧ (event.params[kind.fileParameter]?).isSome

instance (kind : MediaKind) (event : Event) : Decidable (event.Names kind) :=
  inferInstanceAs (Decidable (_ ∧ _))

/-- The file that an event of a kind names. -/
def Event.file (kind : MediaKind) (event : Event) : String :=
  fileName (event.params[kind.fileParameter]?.getD "")

/-- An event becomes a file of a kind when it is of that kind and names one. -/
theorem MediaEvent.entry_ofEvent? (kind : MediaKind) (event : Event) :
    (((ofEvent? event).bind Except.toOption).filter (·.kind = kind)).map (fun entry => (entry.time, entry.file)) =
      (Option.guard (·.Names kind) event).map fun event => (event.startTime, event.file kind) := by
  obtain ⟨eventKind, startTime, params⟩ := event
  cases eventKind with
  | other name => simp [ofEvent?, Event.Names, Option.guard]
  | media other =>
    by_cases heq : other = kind
    · subst heq
      cases hname : params[other.fileParameter]? <;>
        simp [ofEvent?, Event.Names, Event.file, Option.guard, Option.filter, Except.toOption, hname]
    · cases hname : params[other.fileParameter]? <;>
        simp [ofEvent?, Event.Names, Option.guard, Except.toOption, hname, heq]

theorem MediaEvent.ofKind_eq (kind : MediaKind) (events : List Event) :
    ofKind kind (ofEvents events) =
      (events.filter (·.Names kind)).map fun event => (event.startTime, event.file kind) := by
  rw [ofKind, ofEvents, List.filterMap_filterMap, List.filter_filterMap, List.map_filterMap,
    ← List.filterMap_eq_filter, List.map_filterMap]
  exact congrArg (List.filterMap · events) (funext (entry_ofEvent? kind))

/-- An event gives a file of a kind when it is of that kind and names one. -/
theorem MediaEvent.mem_ofKind {kind : MediaKind} {events : List Event} {time : Int} :
    (∃ file, (time, file) ∈ ofKind kind (ofEvents events)) ↔
      ∃ event ∈ events, event.kind = .media kind ∧ event.startTime = time ∧
        (event.params[kind.fileParameter]?).isSome := by
  simp only [ofKind_eq, List.mem_map, List.mem_filter, decide_eq_true_eq, Prod.mk.injEq]
  refine ⟨?_, ?_⟩
  · rintro ⟨_, event, ⟨hmem, hkind, hname⟩, htime, rfl⟩
    exact ⟨event, hmem, hkind, htime, hname⟩
  · rintro ⟨event, hmem, hkind, htime, hname⟩
    exact ⟨_, event, ⟨hmem, hkind, hname⟩, htime, rfl⟩

/-! ## The times of strokes -/

namespace Stroke

/-- Whether one of the strokes writes to a millisecond. -/
def Touch (strokes : List Stroke) (t : Int) : Prop := ∃ stroke ∈ strokes, t ∈ stroke.times

variable {t : Int}

theorem touch_append {strokes more : List Stroke} :
    Touch (strokes ++ more) t ↔ Touch strokes t ∨ Touch more t := by
  simp only [Touch, List.mem_append, or_and_right, exists_or]

theorem touch_ofStart {media : Media} : Touch (ofStart media) t ↔ t = 0 := by
  simp [Touch, ofStart, times]

theorem touch_ofVideos {offset : Int} {media : Media} :
    Touch (ofVideos offset media) t ↔ ∃ time file, (time, file) ∈ media.videos ∧ time + offset = t := by
  simp only [Touch, ofVideos, List.mem_mapIdx]
  refine ⟨?_, ?_⟩
  · intro ht
    obtain ⟨_, ⟨i, hi, rfl⟩, ht⟩ := ht
    exact ⟨_, _, List.getElem_mem hi, (List.mem_singleton.1 ht).symm⟩
  · intro hmem
    obtain ⟨time, file, hmem, rfl⟩ := hmem
    obtain ⟨i, hi, hentry⟩ := List.mem_iff_getElem.1 hmem
    exact ⟨_, ⟨i, hi, rfl⟩, by simp [times, hentry]⟩

theorem touch_ofSamples {offset : Int} {media : Media} :
    Touch (ofSamples offset media) t ↔ ∃ time file, (time, file) ∈ media.samples ∧ time + offset = t := by
  simp only [Touch, ofSamples, List.mem_flatten, List.mem_mapIdx]
  refine ⟨?_, ?_⟩
  · intro ht
    obtain ⟨stroke, ⟨_, ⟨i, hi, rfl⟩, hstroke⟩, ht⟩ := ht
    simp only [List.mem_cons, List.not_mem_nil, or_false] at hstroke
    rcases hstroke with rfl | rfl <;> exact ⟨_, _, List.getElem_mem hi, (List.mem_singleton.1 ht).symm⟩
  · intro hmem
    obtain ⟨time, file, hmem, rfl⟩ := hmem
    obtain ⟨i, hi, hentry⟩ := List.mem_iff_getElem.1 hmem
    exact ⟨_, ⟨_, ⟨i, hi, rfl⟩, List.mem_cons_self⟩, by simp [times, hentry]⟩

theorem touch_map {α : Type} {items : List α} {f : α → Stroke} :
    Touch (items.map f) t ↔ ∃ item ∈ items, t ∈ (f item).times := by
  simp only [Touch, List.mem_map]
  refine ⟨?_, ?_⟩
  · intro ht
    obtain ⟨_, ⟨item, hmem, rfl⟩, ht⟩ := ht
    exact ⟨item, hmem, ht⟩
  · intro ht
    obtain ⟨item, hmem, ht⟩ := ht
    exact ⟨_, ⟨item, hmem, rfl⟩, ht⟩

theorem touch_ofTempoPoints {timing : Timing} :
    Touch (ofTempoPoints timing) t ↔ ∃ point ∈ timing.tempoPoints, point.time = t := by
  simp only [ofTempoPoints, touch_map, times, List.mem_singleton, eq_comm]

theorem touch_ofScrollPoints {timing : Timing} :
    Touch (ofScrollPoints timing) t ↔ ∃ point ∈ timing.scrollPoints, point.time = t := by
  simp only [ofScrollPoints, touch_map, times, List.mem_singleton, Array.mem_toList_iff, eq_comm]

theorem touch_measureLines {lines : List MeasureLine} :
    Touch (lines.map measureLine) t ↔ ∃ line ∈ lines, line.time = t := by
  simp only [touch_map, times, List.mem_singleton, eq_comm]

theorem touch_notes {placements : List Placement} :
    Touch (placements.map notes) t ↔ ∃ placement ∈ placements, t ∈ placement.times := touch_map

end Stroke

/-! ## The milliseconds of a plan -/

namespace Plan

/-- The milliseconds that the records of a beatmap name: the start of the music,
its videos and samples that have a file, tempo points, scroll points, measure
lines and the notes of its hit objects. -/
inductive Marks (plan : Plan) : Int → Prop
  | start : Marks plan 0
  | video {event : Event} :
      event ∈ plan.beatmap.events → event.kind = .media .video → (event.params[0]?).isSome →
      Marks plan (event.startTime + alignmentOffset)
  | sample {event : Event} :
      event ∈ plan.beatmap.events → event.kind = .media .sample → (event.params[1]?).isSome →
      Marks plan (event.startTime + alignmentOffset)
  | tempoPoint {point : TempoPoint} : point ∈ plan.timing.tempoPoints → Marks plan point.time
  | scrollPoint {point : ScrollPoint} : point ∈ plan.timing.scrollPoints → Marks plan point.time
  | measureLine {line : MeasureLine} : line ∈ plan.measureLines → Marks plan line.time
  | hitObject {object : HitObject} {placement : Placement} {t : Int} :
      object ∈ plan.beatmap.hitObjects →
      Placement.ofObject plan.layout alignmentOffset object = .ok placement →
      t ∈ placement.times → Marks plan t

theorem exists_media_iff {plan : Plan} (kind : MediaKind) {t : Int} :
    (∃ time file, (time, file) ∈ MediaEvent.ofKind kind (MediaEvent.ofEvents plan.beatmap.events.toList) ∧
      time + alignmentOffset = t) ↔
      ∃ event ∈ plan.beatmap.events, event.kind = .media kind ∧ (event.params[kind.fileParameter]?).isSome ∧
        event.startTime + alignmentOffset = t := by
  refine ⟨?_, ?_⟩
  · intro hmem
    obtain ⟨time, file, hmem, rfl⟩ := hmem
    obtain ⟨event, hevent, hkind, rfl, hname⟩ := MediaEvent.mem_ofKind.1 ⟨file, hmem⟩
    exact ⟨event, Array.mem_toList_iff.1 hevent, hkind, hname, rfl⟩
  · intro hname
    obtain ⟨event, hevent, hkind, hname, rfl⟩ := hname
    obtain ⟨file, hmem⟩ :=
      MediaEvent.mem_ofKind.2 ⟨event, Array.mem_toList_iff.2 hevent, hkind, rfl, hname⟩
    exact ⟨_, file, hmem, rfl⟩

theorem exists_placed_iff {plan : Plan} {t : Int} :
    (∃ placement ∈ plan.placed, t ∈ placement.times) ↔
    ∃ object ∈ plan.beatmap.hitObjects, ∃ placement,
      Placement.ofObject plan.layout alignmentOffset object = .ok placement ∧ t ∈ placement.times := by
  simp only [mem_placed, placements, List.mem_map, Array.mem_toList_iff]
  refine ⟨?_, ?_⟩
  · intro ht
    obtain ⟨placement, ⟨object, hmem, hplacement⟩, ht⟩ := ht
    exact ⟨object, hmem, placement, hplacement, ht⟩
  · intro ht
    obtain ⟨object, hmem, placement, hplacement, ht⟩ := ht
    exact ⟨placement, ⟨object, hmem, hplacement⟩, ht⟩

/-- The strokes of a plan write to the milliseconds that its records name, and to
no others. -/
theorem marks_iff {plan : Plan} {t : Int} : plan.Marks t ↔ Stroke.Touch plan.strokes t := by
  simp only [strokes_eq, opening, Stroke.touch_append, Stroke.touch_ofStart, Stroke.touch_ofVideos,
    Stroke.touch_ofSamples, Stroke.touch_ofTempoPoints, Stroke.touch_ofScrollPoints, Stroke.touch_measureLines,
    Stroke.touch_notes, media, Media.ofBeatmap, exists_media_iff, exists_placed_iff]
  refine ⟨?_, ?_⟩
  · intro h
    cases h with
    | start => exact .inl (.inl (.inl (.inl (.inl (.inl rfl)))))
    | video hmem hkind hname => exact .inl (.inl (.inl (.inl (.inl (.inr ⟨_, hmem, hkind, hname, rfl⟩)))))
    | sample hmem hkind hname => exact .inl (.inl (.inl (.inl (.inr ⟨_, hmem, hkind, hname, rfl⟩))))
    | tempoPoint hmem => exact .inl (.inl (.inl (.inr ⟨_, hmem, rfl⟩)))
    | scrollPoint hmem => exact .inl (.inl (.inr ⟨_, hmem, rfl⟩))
    | measureLine hmem => exact .inl (.inr ⟨_, hmem, rfl⟩)
    | hitObject hmem hplacement ht => exact .inr ⟨_, hmem, _, hplacement, ht⟩
  · rintro ((((((rfl | ⟨event, hmem, hkind, hname, rfl⟩) | ⟨event, hmem, hkind, hname, rfl⟩) | ⟨point, hmem, rfl⟩) |
      ⟨point, hmem, rfl⟩) | ⟨line, hmem, rfl⟩) | ⟨object, hmem, placement, hplacement, ht⟩)
    · exact .start
    · exact .video hmem hkind hname
    · exact .sample hmem hkind hname
    · exact .tempoPoint hmem
    · exact .scrollPoint hmem
    · exact .measureLine hmem
    · exact .hitObject hmem hplacement ht

theorem exists_timeline_iff {plan : Plan} {beatmap : Beatmap} (h : plan.IsFor beatmap)
    {identity : Chart.Identity} {rule : LongNoteRule} {t : Int} :
    (∃ timeline ∈ (plan.chart identity rule).timelines, timeline.milliTime = t) ↔ plan.Marks t := by
  rw [marks_iff]
  refine ⟨?_, ?_⟩
  · intro hmem
    obtain ⟨timeline, hmem, rfl⟩ := hmem
    obtain ⟨time, hhas, rfl⟩ := mem_timelines.1 hmem
    rw [(shows_draft h rule time).milliTime]
    exact (has_draft h).1 hhas
  · intro htouch
    exact ⟨_, mem_timelines.2 ⟨t, (has_draft h).2 htouch, rfl⟩, (shows_draft h rule t).milliTime⟩

/-- Timelines come in ascending order, no two at one millisecond. -/
theorem timelines_ascending {plan : Plan} {beatmap : Beatmap} (h : plan.IsFor beatmap)
    (identity : Chart.Identity) (rule : LongNoteRule) :
    (plan.chart identity rule).timelines.Pairwise fun a b => a.milliTime < b.milliTime := by
  show ((plan.draft rule).timelines.toList.map Prod.snd).Pairwise _
  have htime : ∀ entry ∈ (plan.draft rule).timelines.toList, entry.2.milliTime = entry.1 := by
    intro entry hmem
    have hget : (plan.draft rule).get? entry.1 = some entry.2 := Std.TreeMap.mem_toList_iff_getElem?_eq_some.1 hmem
    rw [(Draft.get?_eq_some_iff.1 hget).2]
    exact (shows_draft h rule entry.1).milliTime
  rw [List.pairwise_map]
  refine (plan.draft rule).timelines.ordered_keys_toList.imp_of_mem fun {a b} ha hb hlt => ?_
  rw [htime a ha, htime b hb]
  exact Std.compare_eq_lt.1 hlt

end Plan

/-- **The milliseconds of a converted chart** are exactly those its records
name, each with one timeline, in strictly ascending order. -/
theorem Beatmap.convert_marks {beatmap : Beatmap} {identity : Chart.Identity} {rule : LongNoteRule}
    {converted : Converted} (h : beatmap.convert identity rule = .ok converted) :
    ∃ plan : Plan, plan.IsFor beatmap ∧
      (∀ t, (∃ timeline ∈ converted.chart.timelines, timeline.milliTime = t) ↔ plan.Marks t) ∧
      (converted.chart.timelines.Pairwise fun a b => a.microTime < b.microTime) ∧
      (converted.chart.timelines.Pairwise fun a b => a.milliTime < b.milliTime) ∧
      ∀ timeline ∈ converted.chart.timelines, timeline.microTime = timeline.milliTime * 1000 := by
  obtain ⟨plan, hplan, rfl⟩ := convert_eq_ok_iff.1 h
  have hascending := Plan.timelines_ascending hplan identity rule
  have hmicro : ∀ timeline ∈ (plan.chart identity rule).timelines,
      timeline.microTime = timeline.milliTime * 1000 :=
    fun timeline hmem => (Plan.shows_of_mem_timelines hplan hmem).microTime
  refine ⟨plan, hplan, fun t => Plan.exists_timeline_iff hplan, ?_, hascending, hmicro⟩
  refine hascending.imp_of_mem fun {a b} ha hb hlt => ?_
  rw [hmicro a ha, hmicro b hb]
  omega

/-- The sample without a file has no timeline, and the shared milliseconds have
one each. -/
theorem Beatmap.convert_marks_overlapping :
    ∃ converted, Beatmap.overlapping.convert ⟨"", "", ""⟩ .longNote = .ok converted ∧
      converted.chart.timelines.map Timeline.milliTime = [0, 38, 1038, 2038, 4038, 5038, 5538] ∧
      ∃ plan : Plan, plan.IsFor Beatmap.overlapping ∧
        (∀ t, (∃ timeline ∈ converted.chart.timelines, timeline.milliTime = t) ↔ plan.Marks t) ∧
        (converted.chart.timelines.Pairwise fun a b => a.microTime < b.microTime) ∧
        (converted.chart.timelines.Pairwise fun a b => a.milliTime < b.milliTime) ∧
        ∀ timeline ∈ converted.chart.timelines, timeline.microTime = timeline.milliTime * 1000 := by
  obtain ⟨converted, h, htimelines⟩ := exists_convert overlapping ⟨"", "", ""⟩ .longNote
    (fun converted => converted.chart.timelines.map Timeline.milliTime = [0, 38, 1038, 2038, 4038, 5038, 5538])
    (by decide +kernel)
  exact ⟨converted, h, by simpa using htimelines, convert_marks h⟩

end ManiaChart
