/-
Where the notes on lanes stand. A note takes the measure position and the time
of its timeline when it is put there, and measure lines, which move timelines,
are all drawn before the first note is; so a note that a lane still holds stands
where its timeline does (`Plan.exists_standsOn`). The notes of a lane can
therefore be read off the timelines, one for each that holds a note there
(`Chart.forall₂_laneNotes`).
-/
import Mathlib.Data.List.Forall2
import ManiaChart.Proofs.Conversion.Cells
import ManiaChart.Proofs.Conversion.Milliseconds

namespace ManiaChart

/-- Whether a note has the measure position and the time of a timeline. -/
structure Note.StandsOn (note : Note) (timeline : Timeline) : Prop where
  measure : note.measure = timeline.measure
  microTime : note.microTime = timeline.microTime

theorem NoteEnd.standsOn_noteOn (noteEnd : NoteEnd) (timeline : Timeline) :
    (noteEnd.noteOn timeline).StandsOn timeline := ⟨rfl, rfl⟩

/-- Whether a note is the one that a timeline holds on a lane, and stands where
the timeline does. -/
structure Chart.Holds (chart : Chart) (lane : Nat) (timeline : Timeline) (note : Note) : Prop where
  cell : ∃ id, timeline.note? lane = some id ∧ chart.notes.get? id = some note
  stands : note.StandsOn timeline

/-- When every cell of a lane refers to a stored note, the lane has one note for
each of its cells that is taken. -/
theorem Chart.forall₂_laneNotes {chart : Chart} {lane : Nat} {R : Timeline → Note → Prop}
    (h : ∀ timeline ∈ chart.timelines, ∀ id, timeline.note? lane = some id →
      ∃ note, chart.notes.get? id = some note ∧ R timeline note) :
    List.Forall₂ R (chart.timelines.filter fun timeline => (timeline.note? lane).isSome)
      (chart.laneNotes lane) := by
  unfold laneNotes
  generalize chart.timelines = timelines at h
  induction timelines with
  | nil => exact .nil
  | cons timeline rest ih =>
    have hrest := ih fun other hmem => h other (List.mem_cons_of_mem _ hmem)
    cases hcell : timeline.note? lane with
    | none => simpa [hcell] using hrest
    | some id =>
      obtain ⟨note, hnote, hR⟩ := h timeline List.mem_cons_self id hcell
      simpa [hcell, hnote] using ⟨hR, hrest⟩

namespace Plan

variable {plan : Plan} {beatmap : Beatmap} {identity : Chart.Identity} {rule : LongNoteRule}

theorem exists_standsOn (h : plan.IsFor beatmap) {timeline : Timeline} {lane : Nat} {id : NoteId}
    (hmem : timeline ∈ (plan.chart identity rule).timelines) (hcell : timeline.note? lane = some id) :
    ∃ note, (plan.chart identity rule).notes.get? id = some note ∧ note.StandsOn timeline := by
  obtain ⟨t, -, rfl⟩ := mem_timelines.1 hmem
  rw [note?_draft h] at hcell
  obtain ⟨noteEnd, hlast, rfl⟩ := Option.map_eq_some_iff.1 hcell
  obtain ⟨hend, htime⟩ := mem_of_lastEnd? hlast
  obtain ⟨rfl, -⟩ := Prod.mk.inj htime
  exact ⟨_, get?_of_mem_ends h hend, noteEnd.standsOn_noteOn _⟩

theorem laneNotes_held (h : plan.IsFor beatmap) (identity : Chart.Identity) (rule : LongNoteRule)
    (lane : Nat) :
    List.Forall₂ ((plan.chart identity rule).Holds lane)
      ((plan.chart identity rule).timelines.filter fun timeline => (timeline.note? lane).isSome)
      ((plan.chart identity rule).laneNotes lane) := by
  refine Chart.forall₂_laneNotes fun timeline hmem id hcell => ?_
  obtain ⟨note, hnote, hstands⟩ := exists_standsOn h hmem hcell
  exact ⟨note, hnote, ⟨id, hcell, hnote⟩, hstands⟩

theorem laneNotes_ascending (h : plan.IsFor beatmap) (identity : Chart.Identity)
    (rule : LongNoteRule) (lane : Nat) :
    ((plan.chart identity rule).laneNotes lane).Pairwise fun a b => a.microTime < b.microTime := by
  have hheld := laneNotes_held h identity rule lane
  have htimes : (((plan.chart identity rule).timelines.filter fun timeline => (timeline.note? lane).isSome).map
      Timeline.microTime) = ((plan.chart identity rule).laneNotes lane).map Note.microTime := by
    rw [← List.forall₂_eq_eq_eq, List.forall₂_map_left_iff, List.forall₂_map_right_iff]
    exact hheld.imp fun timeline note hholds => hholds.stands.microTime.symm
  have hascending := (timelines_ascending h identity rule).filter fun timeline => (timeline.note? lane).isSome
  rw [← List.pairwise_map, ← htimes, List.pairwise_map]
  refine hascending.imp_of_mem fun {a b} ha hb hlt => ?_
  rw [(shows_of_mem_timelines h (List.mem_of_mem_filter ha)).microTime,
    (shows_of_mem_timelines h (List.mem_of_mem_filter hb)).microTime]
  omega

end Plan

/-- **The notes on lanes.** Whatever a lane of a converted chart holds is a
stored note with the measure position and the time of its timeline; and each
lane has, in strictly ascending order of time, one note for each timeline whose
cell there is taken. -/
theorem Beatmap.convert_lane_notes {beatmap : Beatmap} {identity : Chart.Identity}
    {rule : LongNoteRule} {converted : Converted}
    (h : beatmap.convert identity rule = .ok converted) :
    (∀ timeline ∈ converted.chart.timelines, ∀ lane id, timeline.note? lane = some id →
      ∃ note, converted.chart.notes.get? id = some note ∧ note.StandsOn timeline) ∧
    ∀ lane,
      List.Forall₂ (converted.chart.Holds lane)
        (converted.chart.timelines.filter fun timeline => (timeline.note? lane).isSome)
        (converted.chart.laneNotes lane) ∧
      (converted.chart.laneNotes lane).Pairwise fun a b => a.microTime < b.microTime := by
  obtain ⟨plan, hplan, rfl⟩ := convert_eq_ok_iff.1 h
  exact ⟨fun timeline hmem lane id hcell => Plan.exists_standsOn hplan hmem hcell,
    fun lane => ⟨Plan.laneNotes_held hplan identity rule lane, Plan.laneNotes_ascending hplan identity rule lane⟩⟩

/-- A beatmap whose measures are 1333.5 milliseconds long, so that the line after
the first one is drawn half a millisecond early. A sample and a note are on it,
and a hold note and a note end together. -/
def Beatmap.uneven : Beatmap :=
  { sevenKeys #[{ time := 0, beatLength := 2667 / 8 }]
      #[{ x := 36, y := 192, time := 1333, typeFlags := 1, hitSound := 0, params := [] },
        { x := 36, y := 192, time := 1600, typeFlags := 128, hitSound := 0, params := ["1800"] },
        { x := 36, y := 192, time := 1800, typeFlags := 1, hitSound := 0, params := [] }] with
    events := #[⟨.media .sample, 1333, ["0", "clap.wav"]⟩] }

/-- The note on the measure line stands at the whole measure, and the note that
takes the cell of the tail is the one that the lane has there. -/
theorem Beatmap.convert_lane_notes_uneven :
    ∃ converted, Beatmap.uneven.convert ⟨"", "", ""⟩ .longNote = .ok converted ∧
      (converted.chart.laneNotes 0).map (fun note => (note.microTime, decide (note.measure = 1))) =
        [(1371000, true), (1638000, false), (1838000, false)] ∧
      (∀ timeline ∈ converted.chart.timelines, ∀ lane id, timeline.note? lane = some id →
        ∃ note, converted.chart.notes.get? id = some note ∧ note.StandsOn timeline) ∧
      ∀ lane,
        List.Forall₂ (converted.chart.Holds lane)
          (converted.chart.timelines.filter fun timeline => (timeline.note? lane).isSome)
          (converted.chart.laneNotes lane) ∧
        (converted.chart.laneNotes lane).Pairwise fun a b => a.microTime < b.microTime := by
  obtain ⟨converted, h, hnotes⟩ := exists_convert uneven ⟨"", "", ""⟩ .longNote
    (fun converted => (converted.chart.laneNotes 0).map (fun note => (note.microTime, decide (note.measure = 1))) =
      [(1371000, true), (1638000, false), (1838000, false)]) (by decide +kernel)
  exact ⟨converted, h, by simpa using hnotes, convert_lane_notes h⟩

end ManiaChart
