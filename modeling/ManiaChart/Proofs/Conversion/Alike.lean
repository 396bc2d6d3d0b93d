/-
Two plans that share everything but where the last measure ends and what hit
objects place (`Plan.Akin`). Their timelines get the same sounds and images, and
differ at most in their notes where measure lines leave the same values
(`Plan.drawnAt`).

When they differ only in placements that place nothing (`Plan.Alike`), the notes
are the same too, so nothing but measure lines can tell their charts apart: the
charts are equal exactly when these leave the same values at every millisecond
(`Plan.Alike.chart_eq_iff`).
-/
import Mathlib.Data.List.Sort
import ManiaChart.Proofs.Conversion.SoundNotes

namespace ManiaChart

theorem Placement.endsFrom_filter (rule : LongNoteRule) (next : Nat) (placements : List Placement) :
    endsFrom rule next (placements.filter (· ≠ skipped)) = endsFrom rule next placements := by
  induction placements generalizing next with
  | nil => rfl
  | cons placement rest ih =>
    cases placement with
    | skipped => exact ih next
    | normal lane time | long lane head tail =>
      rw [List.filter_cons_of_pos (by simp), endsFrom, ih, endsFrom]

attribute [ext] Timeline NoteStore

theorem Timeline.cells_eq {a b : Timeline} (hcount : a.laneCount = b.laneCount)
    (h : ∀ lane, a.note? lane = b.note? lane) : a.cells = b.cells := by
  refine Array.ext hcount fun lane ha hb => ?_
  simpa [note?, ha, hb] using h lane

/-! ## The background shown -/

namespace Stroke

/-- The background that a stroke shows from a millisecond on. -/
def imageAt? (t : Int) : Stroke → Option (Option Nat)
  | image time bga => if t = time then some bga else none
  | _ => none

theorem bga_change (rule : LongNoteRule) (draft : Draft) (t : Int) (stroke : Stroke)
    (timeline : Timeline) :
    (stroke.change rule draft t timeline).bga = (stroke.imageAt? t).getD timeline.bga := by
  cases stroke with
  | notes placement =>
    exact Draft.foldl_putEnd Timeline.bga (fun other lane id => by simp only [Draft.retimed, Timeline.setNote]) _ _
  | image time bga =>
    simp only [change, imageAt?]
    split <;> rfl
  | sound time | refresh time | speed time | measureLine line =>
    simp only [change, imageAt?, Option.getD_none]
    split <;> simp only [Draft.retimed, Timeline.addSoundNote]

end Stroke

/-! ## What measure lines leave -/

namespace Plan

variable {plan other : Plan} {beatmap beatmap' : Beatmap} {t : Int}

theorem bga_draft (h : plan.IsFor beatmap) (rule : LongNoteRule) (t : Int) :
    ((plan.draft rule).timelineAt t).bga =
      (plan.opening.filterMap (Stroke.imageAt? t)).getLast?.getD none := by
  have hlines : (plan.measureLines.map Stroke.measureLine).filterMap (Stroke.imageAt? t) = [] := by
    simp [List.filterMap_map, Function.comp_def, Stroke.imageAt?]
  have hnotes : (plan.placed.map Stroke.notes).filterMap (Stroke.imageAt? t) = [] := by
    simp [List.filterMap_map, Function.comp_def, Stroke.imageAt?]
  rw [field_draft h Timeline.bga (Stroke.imageAt? t)
    fun draft stroke _ _ _ timeline => stroke.bga_change rule draft t timeline]
  rw [strokes_eq, List.filterMap_append, List.filterMap_append, hlines, hnotes, List.append_nil, List.append_nil]
  rfl

/-- The measure position and the tempo that measure lines leave at a millisecond;
a note there brings the active tempo. -/
def drawnAt (plan : Plan) (t : Int) : Option (Binary64 × Binary64) :=
  (plan.lastLine? t).map fun line =>
    (line.measure, if plan.NoteAt t then plan.timing.bpmAt t else line.bpm)

theorem drawn_draft (h : plan.IsFor beatmap) (rule : LongNoteRule) (t : Int) :
    (((plan.draft rule).timelineAt t).hasMeasureLine, ((plan.draft rule).timelineAt t).measure,
        ((plan.draft rule).timelineAt t).bpm) =
      ((plan.drawnAt t).map fun drawn => (true, drawn)).getD
        (false, plan.timing.measureAt t, plan.timing.bpmAt t) := by
  have hline := line_draft h rule t
  have hbpm := (shows_draft h rule t).bpm
  unfold drawnAt
  cases hlast : plan.lastLine? t with
  | none =>
    rw [hlast] at hline hbpm
    obtain ⟨hmark, hmeasure⟩ := Prod.mk.inj hline
    rw [Option.map_none, Option.getD_none, ite_self] at hbpm
    rw [hmark, hmeasure, hbpm]
    rfl
  | some line =>
    rw [hlast] at hline hbpm
    obtain ⟨hmark, hmeasure⟩ := Prod.mk.inj hline
    rw [hmark, hmeasure, hbpm]
    rfl

theorem isSome_drawnAt_iff : (plan.drawnAt t).isSome ↔ ∃ line ∈ plan.measureLines, line.time = t := by
  rw [drawnAt, Option.isSome_map, Option.isSome_iff_ne_none, ne_eq, lastLine?_eq_none_iff]
  simp

/-- A millisecond has a timeline when something before the measure lines, a
measure line or a note is there. -/
theorem has_draft_iff (h : plan.IsFor beatmap) (rule : LongNoteRule) (t : Int) :
    (plan.draft rule).Has t ↔ Stroke.Touch plan.opening t ∨ (plan.drawnAt t).isSome ∨ plan.NoteAt t := by
  have hhas : (plan.draft rule).Has t ↔ Stroke.Touch plan.strokes t := has_draft h
  rw [hhas, strokes_eq, Stroke.touch_append, Stroke.touch_append, Stroke.touch_measureLines, Stroke.touch_notes,
    isSome_drawnAt_iff, or_assoc]
  rfl

theorem mem_timelines_iff (h : plan.IsFor beatmap) {identity : Chart.Identity} {rule : LongNoteRule}
    {timeline : Timeline} :
    timeline ∈ (plan.chart identity rule).timelines ↔
      (plan.draft rule).Has timeline.milliTime ∧ timeline = (plan.draft rule).timelineAt timeline.milliTime := by
  rw [mem_timelines]
  refine ⟨?_, ?_⟩
  · intro hmem
    obtain ⟨t, hhas, rfl⟩ := hmem
    rw [(shows_draft h rule t).milliTime]
    exact ⟨hhas, rfl⟩
  · intro hmem
    exact ⟨_, hmem⟩

/-! ## Plans that are akin -/

/-- Plans that share everything but where the last measure ends and what hit
objects place. -/
structure Akin (plan other : Plan) : Prop where
  layout : other.layout = plan.layout
  timing : other.timing = plan.timing
  media : other.media = plan.media
  metadata : other.beatmap.metadata = plan.beatmap.metadata

namespace Akin

theorem opening (ha : plan.Akin other) : other.opening = plan.opening := by
  rw [Plan.opening, Plan.opening, ha.media, ha.timing]

theorem sounds (ha : plan.Akin other) : other.sounds = plan.sounds := by
  rw [Plan.sounds, ha.opening, Plan.sounds]

theorem soundNote (ha : plan.Akin other) : other.soundNote = plan.soundNote := by
  funext sound
  rw [Plan.soundNote, ha.timing, Plan.soundNote]

theorem header (ha : plan.Akin other) (rule : LongNoteRule) : other.header rule = plan.header rule := by
  simp only [Plan.header, ha.layout, ha.timing, ha.media, ha.metadata]

/-- Measure lines that end together leave the same where both plans have notes or
neither has. -/
theorem drawnAt (ha : plan.Akin other) (hstop : other.stop = plan.stop) (hnote : other.NoteAt t ↔ plan.NoteAt t) :
    other.drawnAt t = plan.drawnAt t := by
  simp only [Plan.drawnAt, Plan.lastLine?, Plan.measureLines, ha.timing, hnote, hstop]

theorem laneCount (ha : plan.Akin other) (h : plan.IsFor beatmap) (h' : other.IsFor beatmap') (rule : LongNoteRule)
    (t : Int) : ((other.draft rule).timelineAt t).laneCount = ((plan.draft rule).timelineAt t).laneCount := by
  rw [laneCount_draft h', laneCount_draft h, ha.layout]

/-- Where measure lines leave the same, timelines differ at most in their
notes. -/
theorem timelineAt (ha : plan.Akin other) (h : plan.IsFor beatmap) (h' : other.IsFor beatmap')
    (rule : LongNoteRule) (hdrawn : other.drawnAt t = plan.drawnAt t) :
    (other.draft rule).timelineAt t =
      { (plan.draft rule).timelineAt t with cells := ((other.draft rule).timelineAt t).cells } := by
  have hmicro := (microTime_draft h' rule t).trans (microTime_draft h rule t).symm
  have hlines := drawn_draft h' rule t
  rw [hdrawn, ha.timing, ← drawn_draft h rule t] at hlines
  obtain ⟨hmark, hmeasure, hbpm⟩ : _ ∧ _ ∧ _ := by simpa only [Prod.mk.injEq] using hlines
  have hscroll := (shows_draft h' rule t).scroll
  rw [ha.timing, ← (shows_draft h rule t).scroll] at hscroll
  have hbga := bga_draft h' rule t
  rw [ha.opening, ← bga_draft h rule t] at hbga
  have hsounds := soundNotes_draft h' rule t
  rw [ha.sounds, ← soundNotes_draft h rule t, Array.toList_inj] at hsounds
  exact Timeline.ext hmicro hmeasure hbpm hscroll hmark hbga hsounds rfl

end Akin

/-! ## Plans that are alike -/

/-- Plans that share everything but where the last measure ends and placements
that place nothing. -/
structure Alike (plan other : Plan) : Prop where
  layout : other.layout = plan.layout
  timing : other.timing = plan.timing
  media : other.media = plan.media
  metadata : other.beatmap.metadata = plan.beatmap.metadata
  placed : other.placed.filter (· ≠ .skipped) = plan.placed.filter (· ≠ .skipped)

theorem noteAt_iff : plan.NoteAt t ↔ ∃ placement ∈ plan.placed.filter (· ≠ .skipped), t ∈ placement.times := by
  refine ⟨?_, ?_⟩
  · intro hnote
    obtain ⟨placement, hmem, htime⟩ := hnote
    refine ⟨placement, List.mem_filter.2 ⟨hmem, ?_⟩, htime⟩
    rw [decide_eq_true_eq]
    rintro rfl
    cases htime
  · intro hnote
    obtain ⟨placement, hmem, htime⟩ := hnote
    exact ⟨placement, List.mem_of_mem_filter hmem, htime⟩

namespace Alike

theorem symm (ha : plan.Alike other) : other.Alike plan :=
  ⟨ha.layout.symm, ha.timing.symm, ha.media.symm, ha.metadata.symm, ha.placed.symm⟩

theorem akin (ha : plan.Alike other) : plan.Akin other := ⟨ha.layout, ha.timing, ha.media, ha.metadata⟩

theorem ends (ha : plan.Alike other) (rule : LongNoteRule) : other.ends rule = plan.ends rule := by
  rw [Plan.ends, size_laid, ha.akin.sounds, ← size_laid plan rule, ← Placement.endsFrom_filter, ha.placed,
    Placement.endsFrom_filter, Plan.ends]

theorem noteAt (ha : plan.Alike other) : other.NoteAt t ↔ plan.NoteAt t := by
  rw [noteAt_iff, noteAt_iff, ha.placed]

variable {identity : Chart.Identity} {rule : LongNoteRule}

/-- Where measure lines leave the same, so do the plans. -/
theorem timelineAt (ha : plan.Alike other) (h : plan.IsFor beatmap) (h' : other.IsFor beatmap')
    (hdrawn : other.drawnAt t = plan.drawnAt t) :
    (other.draft rule).timelineAt t = (plan.draft rule).timelineAt t := by
  have hcells := Timeline.cells_eq (ha.akin.laneCount h h' rule t) fun lane => by
    rw [note?_draft h', note?_draft h, ha.ends]
  rw [ha.akin.timelineAt h h' rule hdrawn, hcells]

theorem mem_timelines_iff (ha : plan.Alike other) (h : plan.IsFor beatmap) (h' : other.IsFor beatmap')
    {timeline : Timeline} (hdrawn : other.drawnAt timeline.milliTime = plan.drawnAt timeline.milliTime) :
    timeline ∈ (other.chart identity rule).timelines ↔ timeline ∈ (plan.chart identity rule).timelines := by
  rw [Plan.mem_timelines_iff h', Plan.mem_timelines_iff h, has_draft_iff h', has_draft_iff h, ha.akin.opening,
    hdrawn, ha.noteAt, ha.timelineAt h h' hdrawn]

/-- In charts that are equal, measure lines leave the same. -/
theorem drawnAt_of_isSome (ha : plan.Alike other) (h : plan.IsFor beatmap) (h' : other.IsFor beatmap')
    (hchart : other.chart identity rule = plan.chart identity rule) (hsome : (plan.drawnAt t).isSome) :
    other.drawnAt t = plan.drawnAt t := by
  have hhas : (plan.draft rule).Has t := (has_draft_iff h rule t).2 (.inr (.inl hsome))
  have hmem : (plan.draft rule).timelineAt t ∈ (other.chart identity rule).timelines := by
    rw [hchart]
    exact mem_timelines.2 ⟨t, hhas, rfl⟩
  have htimeline := ((Plan.mem_timelines_iff h').1 hmem).2
  rw [(shows_draft h rule t).milliTime] at htimeline
  have hlines := drawn_draft h rule t
  rw [htimeline, drawn_draft h' rule t, ha.timing] at hlines
  obtain ⟨drawn, hplan⟩ := Option.isSome_iff_exists.1 hsome
  rw [hplan] at hlines ⊢
  cases hother : other.drawnAt t with
  | none => simp [hother] at hlines
  | some values => simpa [hother] using hlines

theorem chart_eq (ha : plan.Alike other) (h : plan.IsFor beatmap) (h' : other.IsFor beatmap')
    (hdrawn : ∀ t, other.drawnAt t = plan.drawnAt t) :
    other.chart identity rule = plan.chart identity rule := by
  have hirrefl : Std.Irrefl fun a b : Timeline => a.milliTime < b.milliTime := ⟨fun a => Int.lt_irrefl _⟩
  have htimelines : (other.chart identity rule).timelines = (plan.chart identity rule).timelines :=
    (timelines_ascending h' identity rule).eq_of_mem_iff (timelines_ascending h identity rule)
      fun timeline => ha.mem_timelines_iff h h' (hdrawn _)
  have htimelineAt : ∀ t, (other.draft rule).timelineAt t = (plan.draft rule).timelineAt t :=
    fun t => ha.timelineAt h h' (hdrawn t)
  have hnotes : (other.draft rule).notes.all = (plan.draft rule).notes.all := by
    rw [all_draft h', all_draft h, ha.akin.sounds, ha.ends, ha.akin.soundNote]
    simp only [htimelineAt]
  have hstore : (other.draft rule).notes = (plan.draft rule).notes := NoteStore.ext (Array.toList_inj.1 hnotes)
  rw [timelines_chart, timelines_chart] at htimelines
  rw [chart, chart, ha.akin.header, htimelines, hstore]

/-- **Charts of plans that are alike** are told apart by measure lines alone. -/
theorem chart_eq_iff (ha : plan.Alike other) (h : plan.IsFor beatmap) (h' : other.IsFor beatmap') :
    other.chart identity rule = plan.chart identity rule ↔ ∀ t, other.drawnAt t = plan.drawnAt t := by
  refine ⟨fun hchart t => ?_, ha.chart_eq h h'⟩
  cases hplan : plan.drawnAt t with
  | some drawn => exact (ha.drawnAt_of_isSome h h' hchart (by simp [hplan])).trans hplan
  | none =>
    cases hother : other.drawnAt t with
    | none => rfl
    | some drawn =>
      rw [← hother, ← hplan]
      exact (ha.symm.drawnAt_of_isSome h' h hchart.symm (by simp [hother])).symm

end Alike

end Plan

end ManiaChart
