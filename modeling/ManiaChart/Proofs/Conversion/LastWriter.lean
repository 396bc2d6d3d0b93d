/-
What the timelines of a converted chart show, told by the strokes that write to
their millisecond.

Measure lines alone set the measure position, so the last line at a millisecond
decides it (`line_draft`). The scroll speed is the active one whoever wrote
last. The tempo is the active one too, unless the last writer is a measure line,
which brings the tempo of its own stretch (`speed_draft`).
-/
import ManiaChart.Proofs.Conversion.Planning
import ManiaChart.Proofs.Timing.MeasureLine

namespace ManiaChart

/-! ## What a note brings -/

/-- A note leaves the active tempo and scroll speed at its millisecond. -/
theorem Draft.speed_foldl_putEnd (draft : Draft) (t : Int) (ends : List NoteEnd)
    (timeline : Timeline) :
    ((ends.foldl (draft.putEnd t) timeline).bpm, (ends.foldl (draft.putEnd t) timeline).scroll) =
      if t ∈ ends.map NoteEnd.time then (draft.timing.bpmAt t, draft.timing.scrollAt t)
      else (timeline.bpm, timeline.scroll) := by
  induction ends generalizing timeline with
  | nil => rfl
  | cons noteEnd rest ih =>
    rw [List.foldl_cons, ih, List.map_cons]
    by_cases hrest : t ∈ rest.map NoteEnd.time
    · rw [if_pos hrest, if_pos (List.mem_cons_of_mem _ hrest)]
    · rw [if_neg hrest, putEnd]
      by_cases ht : t = noteEnd.time
      · rw [if_pos ht, if_pos (ht ▸ List.mem_cons_self)]
        rfl
      · rw [if_neg ht, if_neg (by simp [ht, hrest])]

/-! ## What each stroke writes -/

namespace Stroke

/-- The measure line that a stroke draws at a millisecond. -/
def lineAt? (t : Int) : Stroke → Option MeasureLine
  | measureLine line => if line.time = t then some line else none
  | _ => none

/-- The tempo and the scroll speed that a stroke leaves at a millisecond. -/
def speedAt? (timing : Timing) (t : Int) : Stroke → Option (Binary64 × Binary64)
  | sound .. => none
  | refresh time | image time _ => if t = time then some (timing.bpmAt t, timing.scrollAt t) else none
  | speed time bpm scroll => if t = time then some (bpm, scroll) else none
  | measureLine line => if line.time = t then some (line.bpm, line.scroll) else none
  | notes placement => if t ∈ placement.times then some (timing.bpmAt t, timing.scrollAt t) else none

theorem microTime_change (rule : LongNoteRule) (draft : Draft) (t : Int) (stroke : Stroke)
    (timeline : Timeline) :
    (stroke.change rule draft t timeline).microTime = timeline.microTime := by
  cases stroke with
  | notes placement =>
    exact Draft.foldl_putEnd Timeline.microTime
      (fun other lane id => by simp only [Draft.retimed, Timeline.setNote]) _ _
  | sound time | refresh time | image time | speed time | measureLine line =>
    simp only [change]
    split <;> simp only [Draft.retimed, Timeline.addSoundNote]

theorem line_change (rule : LongNoteRule) (draft : Draft) (t : Int) (stroke : Stroke)
    (timeline : Timeline) :
    ((stroke.change rule draft t timeline).hasMeasureLine, (stroke.change rule draft t timeline).measure) =
      ((stroke.lineAt? t).map fun line => (true, line.measure)).getD
        (timeline.hasMeasureLine, timeline.measure) := by
  cases stroke with
  | notes placement =>
    refine Draft.foldl_putEnd (fun timeline => (timeline.hasMeasureLine, timeline.measure))
      (fun other lane id => ?_) _ _
    simp only [Draft.retimed, Timeline.setNote]
  | sound time | refresh time | image time | speed time =>
    simp only [change, lineAt?, Option.map_none, Option.getD_none]
    split <;> simp only [Draft.retimed, Timeline.addSoundNote]
  | measureLine line =>
    by_cases h : line.time = t
    · simp [change, lineAt?, h]
    · simp [change, lineAt?, h, Ne.symm h]

theorem speed_change (rule : LongNoteRule) (draft : Draft) (t : Int) (stroke : Stroke)
    (timeline : Timeline) :
    ((stroke.change rule draft t timeline).bpm, (stroke.change rule draft t timeline).scroll) =
      (stroke.speedAt? draft.timing t).getD (timeline.bpm, timeline.scroll) := by
  cases stroke with
  | notes placement =>
    simp only [change, speedAt?, Draft.speed_foldl_putEnd, Placement.map_time_ends]
    split <;> rfl
  | sound time =>
    simp only [change, speedAt?, Option.getD_none]
    split <;> simp only [Timeline.addSoundNote]
  | refresh time | image time | speed time =>
    simp only [change, speedAt?]
    split <;> simp only [Draft.retimed, Option.getD_some, Option.getD_none]
  | measureLine line =>
    by_cases h : line.time = t
    · simp [change, speedAt?, h]
    · simp [change, speedAt?, h, Ne.symm h]

end Stroke

/-! ## What a plan leaves at a millisecond -/

namespace Plan

variable {plan : Plan} {beatmap : Beatmap} {t : Int}

/-- The last of the measure lines at a millisecond. -/
def lastLine? (plan : Plan) (t : Int) : Option MeasureLine :=
  (plan.measureLines.filter (·.time = t)).getLast?

/-- Whether a hit object has a note at a millisecond. -/
def NoteAt (plan : Plan) (t : Int) : Prop := ∃ placement ∈ plan.placed, t ∈ placement.times

instance (plan : Plan) (t : Int) : Decidable (plan.NoteAt t) :=
  inferInstanceAs (Decidable (∃ placement ∈ plan.placed, t ∈ placement.times))

theorem lastLine?_eq_none_iff :
    plan.lastLine? t = none ↔ ∀ line ∈ plan.measureLines, line.time ≠ t := by
  simp [lastLine?]

theorem mem_of_lastLine? {line : MeasureLine} (h : plan.lastLine? t = some line) :
    line ∈ plan.measureLines ∧ line.time = t := by
  simpa using List.mem_filter.1 (List.mem_of_getLast? h)

theorem lineAt?_strokes (plan : Plan) (t : Int) :
    plan.strokes.filterMap (Stroke.lineAt? t) = plan.measureLines.filter (·.time = t) := by
  have hopening : plan.opening.filterMap (Stroke.lineAt? t) = [] := by
    refine List.filterMap_eq_nil_iff.2 fun stroke hmem => ?_
    have hopens := opens_of_mem hmem
    cases stroke with
    | measureLine line => exact hopens.elim
    | _ => rfl
  have hlines : (plan.measureLines.map Stroke.measureLine).filterMap (Stroke.lineAt? t) =
      plan.measureLines.filter (·.time = t) := by
    rw [List.filterMap_map, ← List.filterMap_eq_filter]
    simp [Function.comp_def, Stroke.lineAt?, Option.guard_def]
  have hnotes : (plan.placed.map Stroke.notes).filterMap (Stroke.lineAt? t) = [] := by
    simp [List.filterMap_map, Function.comp_def, Stroke.lineAt?]
  rw [strokes_eq, List.filterMap_append, List.filterMap_append, hopening, hlines, hnotes, List.nil_append,
    List.append_nil]

theorem microTime_draft (h : plan.IsFor beatmap) (rule : LongNoteRule) (t : Int) :
    ((plan.draft rule).timelineAt t).microTime = t * 1000 := by
  show (Stroke.drawAll rule plan.blank plan.strokes |>.timelineAt t).microTime = _
  rw [Stroke.kept_drawAll Timeline.microTime
      (fun draft stroke _ timeline => stroke.microTime_change rule draft t timeline)
    (strokes_fit h), timelineAt_blank, Draft.seed]

/-- The last line at a millisecond decides the measure position there. -/
theorem line_draft (h : plan.IsFor beatmap) (rule : LongNoteRule) (t : Int) :
    (((plan.draft rule).timelineAt t).hasMeasureLine, ((plan.draft rule).timelineAt t).measure) =
      ((plan.lastLine? t).map fun line => (true, line.measure)).getD (false, plan.timing.measureAt t) := by
  rw [field_draft h (fun timeline => (timeline.hasMeasureLine, timeline.measure)) _
    fun draft stroke _ _ _ timeline => stroke.line_change rule draft t timeline]
  rw [← List.map_filterMap, lineAt?_strokes, List.getLast?_map]
  rfl

theorem getLast?_of_forall_eq {α : Type} {values : List α} {value : α}
    (h : ∀ other ∈ values, other = value) : values.getLast?.getD value = value := by
  cases hlast : values.getLast? with
  | none => rfl
  | some other => exact h other (List.mem_of_getLast? hlast)

theorem speedAt?_opening (plan : Plan) (t : Int) :
    ∀ speed ∈ plan.opening.filterMap (Stroke.speedAt? plan.timing t),
      speed = (plan.timing.bpmAt t, plan.timing.scrollAt t) := by
  intro speed hmem
  obtain ⟨stroke, hstroke, hspeed⟩ := List.mem_filterMap.1 hmem
  have hopens := opens_of_mem hstroke
  cases stroke with
  | sound time => cases hspeed
  | refresh time | image time =>
    simp only [Stroke.speedAt?, Option.ite_none_right_eq_some] at hspeed
    exact (Option.some.inj hspeed.2).symm
  | speed time bpm scroll =>
    simp only [Stroke.speedAt?, Option.ite_none_right_eq_some] at hspeed
    obtain ⟨rfl, hspeed⟩ := hspeed
    rw [← Option.some.inj hspeed, hopens.1, hopens.2]
  | measureLine line | notes placement => exact hopens.elim

theorem speedAt?_measureLines (plan : Plan) (t : Int) :
    ((plan.measureLines.map Stroke.measureLine).filterMap (Stroke.speedAt? plan.timing t)).getLast? =
      (plan.lastLine? t).map fun line => (line.bpm, line.scroll) := by
  rw [lastLine?, ← List.getLast?_map, List.filterMap_map, ← List.filterMap_eq_filter, List.map_filterMap]
  congr 2
  funext line
  simp only [Function.comp_apply, Stroke.speedAt?, Option.guard_def, decide_eq_true_eq]
  split <;> rfl

theorem speedAt?_placed (plan : Plan) (t : Int) :
    ((plan.placed.map Stroke.notes).filterMap (Stroke.speedAt? plan.timing t)).getLast? =
      if plan.NoteAt t then some (plan.timing.bpmAt t, plan.timing.scrollAt t) else none := by
  have hmem : ∀ speed, speed ∈ (plan.placed.map Stroke.notes).filterMap (Stroke.speedAt? plan.timing t) ↔
      plan.NoteAt t ∧ speed = (plan.timing.bpmAt t, plan.timing.scrollAt t) := fun speed => by
    simp only [List.mem_filterMap, List.mem_map]
    refine ⟨?_, ?_⟩
    · intro hspeed
      obtain ⟨_, ⟨placement, hplaced, rfl⟩, hspeed⟩ := hspeed
      simp only [Stroke.speedAt?, Option.ite_none_right_eq_some] at hspeed
      exact ⟨⟨placement, hplaced, hspeed.1⟩, (Option.some.inj hspeed.2).symm⟩
    · intro htime
      obtain ⟨⟨placement, hplaced, htime⟩, rfl⟩ := htime
      exact ⟨_, ⟨placement, hplaced, rfl⟩, if_pos htime⟩
  cases hlast : ((plan.placed.map Stroke.notes).filterMap (Stroke.speedAt? plan.timing t)).getLast? with
  | none =>
    rw [List.getLast?_eq_none_iff] at hlast
    have hnone : ¬plan.NoteAt t := fun hnote => by simpa [hlast] using (hmem _).2 ⟨hnote, rfl⟩
    rw [if_neg hnone]
  | some speed =>
    obtain ⟨hnote, rfl⟩ := (hmem speed).1 (List.mem_of_getLast? hlast)
    rw [if_pos hnote]

/-- A note brings the active tempo; where there is none, the last line at the
millisecond brings its own. -/
theorem speed_draft (h : plan.IsFor beatmap) (rule : LongNoteRule) (t : Int) :
    (((plan.draft rule).timelineAt t).bpm, ((plan.draft rule).timelineAt t).scroll) =
      if plan.NoteAt t then (plan.timing.bpmAt t, plan.timing.scrollAt t)
      else ((plan.lastLine? t).map fun line => (line.bpm, line.scroll)).getD
        (plan.timing.bpmAt t, plan.timing.scrollAt t) := by
  rw [field_draft h (fun timeline => (timeline.bpm, timeline.scroll)) (Stroke.speedAt? plan.timing t)
    fun draft stroke htiming _ _ timeline => htiming ▸ stroke.speed_change rule draft t timeline]
  rw [strokes_eq, List.filterMap_append, List.filterMap_append, List.getLast?_append, List.getLast?_append,
    speedAt?_placed, speedAt?_measureLines]
  split
  · rfl
  · cases plan.lastLine? t with
    | some line => rfl
    | none => exact getLast?_of_forall_eq (plan.speedAt?_opening t)

/-- What the timeline at a millisecond shows, told by who writes there last. -/
structure Shows (plan : Plan) (t : Int) (timeline : Timeline) : Prop where
  microTime : timeline.microTime = t * 1000
  hasMeasureLine : timeline.hasMeasureLine = true ↔ ∃ line ∈ plan.measureLines, line.time = t
  measure : timeline.measure = ((plan.lastLine? t).map MeasureLine.measure).getD (plan.timing.measureAt t)
  scroll : timeline.scroll = plan.timing.scrollAt t
  bpm : timeline.bpm =
    if plan.NoteAt t then plan.timing.bpmAt t
    else ((plan.lastLine? t).map MeasureLine.bpm).getD (plan.timing.bpmAt t)

theorem Shows.milliTime {timeline : Timeline} (h : plan.Shows t timeline) :
    timeline.milliTime = t := by
  rw [Timeline.milliTime, h.microTime, Int.mul_tdiv_cancel t (by decide)]

theorem shows_draft (h : plan.IsFor beatmap) (rule : LongNoteRule) (t : Int) :
    plan.Shows t ((plan.draft rule).timelineAt t) := by
  have hline := line_draft h rule t
  have hspeed := speed_draft h rule t
  have hscroll : ∀ line, plan.lastLine? t = some line →
      line.scroll = plan.timing.scrollAt t := fun line hlast => by
    obtain ⟨hmem, rfl⟩ := mem_of_lastLine? hlast
    exact Timing.scroll_of_mem_measureLines hmem
  cases hlast : plan.lastLine? t with
  | none =>
    simp only [hlast, Option.map_none, Option.getD_none, Prod.mk.injEq, ite_self] at hline hspeed
    refine ⟨microTime_draft h rule t, ?_, ?_, hspeed.2, ?_⟩
    · simpa [hline.1] using lastLine?_eq_none_iff.1 hlast
    · rw [hline.2, hlast, Option.map_none, Option.getD_none]
    · rw [hspeed.1, hlast, Option.map_none, Option.getD_none, ite_self]
  | some line =>
    simp only [hlast, Option.map_some, Option.getD_some, Prod.mk.injEq, hscroll line hlast] at hline hspeed
    refine ⟨microTime_draft h rule t, ?_, ?_, ?_, ?_⟩
    · simpa [hline.1] using ⟨line, mem_of_lastLine? hlast⟩
    · rw [hline.2, hlast, Option.map_some, Option.getD_some]
    · split at hspeed <;> exact (Prod.mk.inj hspeed).2
    · rw [hlast, Option.map_some, Option.getD_some]
      by_cases hnote : plan.NoteAt t
      · rw [if_pos hnote] at hspeed ⊢
        exact (Prod.mk.inj hspeed).1
      · rw [if_neg hnote] at hspeed ⊢
        exact (Prod.mk.inj hspeed).1

theorem shows_of_mem_timelines (h : plan.IsFor beatmap) {identity : Chart.Identity}
    {rule : LongNoteRule} {timeline : Timeline}
    (hmem : timeline ∈ (plan.chart identity rule).timelines) :
    plan.Shows timeline.milliTime timeline := by
  obtain ⟨t, -, rfl⟩ := mem_timelines.1 hmem
  have hshows := shows_draft h rule t
  rwa [hshows.milliTime]

end Plan

/-- **The last writer's law.** Whatever strokes share a millisecond, each
timeline of a converted chart shows what the last of them that writes a field
leaves there: measure lines the measure position, notes and lines the tempo,
and all of them the active scroll speed. -/
theorem Beatmap.convert_shows {beatmap : Beatmap} {identity : Chart.Identity} {rule : LongNoteRule}
    {converted : Converted} (h : beatmap.convert identity rule = .ok converted) :
    ∃ plan : Plan, plan.IsFor beatmap ∧
      ∀ timeline ∈ converted.chart.timelines, plan.Shows timeline.milliTime timeline := by
  obtain ⟨plan, hplan, rfl⟩ := convert_eq_ok_iff.1 h
  exact ⟨plan, hplan, fun timeline hmem => Plan.shows_of_mem_timelines hplan hmem⟩

/-- Both stretches of the beatmap draw a line at 4038, the second one last. -/
theorem Beatmap.convert_shows_overlapping :
    ∃ converted, Beatmap.overlapping.convert ⟨"", "", ""⟩ .longNote = .ok converted ∧
      (converted.chart.timelines.map fun timeline => (timeline.milliTime, timeline.bpm)) =
        [(0, 120), (38, 120), (1038, 120), (2038, 120), (4038, 240), (5038, 240), (5538, 240)] ∧
      ∃ plan : Plan, plan.IsFor Beatmap.overlapping ∧
        ∀ timeline ∈ converted.chart.timelines, plan.Shows timeline.milliTime timeline := by
  obtain ⟨converted, h, htimelines⟩ := exists_convert overlapping ⟨"", "", ""⟩ .longNote
    (fun converted => (converted.chart.timelines.map fun timeline => (timeline.milliTime, timeline.bpm)) =
      [(0, 120), (38, 120), (1038, 120), (2038, 120), (4038, 240), (5038, 240), (5538, 240)]) (by decide +kernel)
  exact ⟨converted, h, by simpa using htimelines, convert_shows h⟩

end ManiaChart
