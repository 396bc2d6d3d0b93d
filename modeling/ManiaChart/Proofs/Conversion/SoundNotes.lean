/-
Background notes: the start of the music, and the samples. They are stored
first, in the order of the file (`Plan.all_draft`), and with the measure position
that the timing gives (`Plan.all_laid`). Measure lines, which are drawn later,
may move the timeline that holds one to a whole number of measures; the note
then stays behind. Where no line does (`Plan.Unmoved`), a background note stands
where its timeline does, and only there (`Plan.standsOn_soundNote_iff`); measures
of whole milliseconds leave all timelines unmoved (`Plan.WholeMeasures.unmoved`).
-/
import ManiaChart.Proofs.Conversion.LaneNotes
import ManiaChart.Proofs.Timing.MeasurePosition

namespace ManiaChart

/-! ## The background notes of strokes -/

/-- A background note: when it sounds, under which id it is stored, and what
sounds. -/
structure SoundNote where
  time : Int
  id : NoteId
  sound : Nat
deriving DecidableEq

/-- A background note as it is stored: where a timeline stands. -/
def SoundNote.noteOn (sound : SoundNote) (timeline : Timeline) : Note :=
  (Note.normal (some sound.sound)).place timeline.measure timeline.microTime

namespace Stroke

/-- The background note of a stroke, stored under the id `next`. -/
def sounds (next : Nat) : Stroke → List SoundNote
  | sound time index => [⟨time, ⟨next⟩, index⟩]
  | _ => []

/-- The background notes of strokes, stored one after another from the id `next`
on. -/
def soundsFrom (next : Nat) : List Stroke → List SoundNote
  | [] => []
  | stroke :: rest => stroke.sounds next ++ soundsFrom (next + (stroke.sounds next).length) rest

variable {rule : LongNoteRule} {draft : Draft}

theorem soundsFrom_append (next : Nat) (strokes more : List Stroke) :
    soundsFrom next (strokes ++ more) =
      soundsFrom next strokes ++ soundsFrom (next + (soundsFrom next strokes).length) more := by
  induction strokes generalizing next with
  | nil => rfl
  | cons stroke rest ih =>
    rw [List.cons_append, soundsFrom, ih, soundsFrom, List.append_assoc, List.length_append, Nat.add_assoc]

theorem soundsFrom_eq_nil {strokes : List Stroke} (h : ∀ stroke ∈ strokes, ∀ next, stroke.sounds next = [])
    (next : Nat) : soundsFrom next strokes = [] := by
  induction strokes generalizing next with
  | nil => rfl
  | cons stroke rest ih =>
    rw [soundsFrom, h stroke List.mem_cons_self, List.nil_append]
    exact ih (fun other hmem => h other (List.mem_cons_of_mem _ hmem)) _

theorem soundsFrom_map_eq_nil {α : Type} {f : α → Stroke} (h : ∀ item next, (f item).sounds next = [])
    (items : List α) (next : Nat) : soundsFrom next (items.map f) = [] := by
  refine soundsFrom_eq_nil (fun stroke hmem next => ?_) next
  obtain ⟨item, -, rfl⟩ := List.mem_map.1 hmem
  exact h item next

/-- Background notes get the ids from `next` on, in order. -/
theorem map_index_soundsFrom (next : Nat) (strokes : List Stroke) :
    (soundsFrom next strokes).map (·.id.index) = List.range' next (soundsFrom next strokes).length := by
  induction strokes generalizing next with
  | nil => rfl
  | cons stroke rest ih =>
    rw [soundsFrom, List.map_append, ih, List.length_append, ← List.range'_append_1]
    congr 1
    cases stroke <;> rfl

theorem soundNotes_change (rule : LongNoteRule) (draft : Draft) (t : Int) (stroke : Stroke)
    (timeline : Timeline) :
    (stroke.change rule draft t timeline).soundNotes.toList =
      timeline.soundNotes.toList ++
        ((stroke.sounds draft.notes.size).filter (·.time = t)).map (·.id) := by
  cases stroke with
  | sound time index =>
    by_cases h : t = time
    · simp [change, sounds, Timeline.addSoundNote, NoteStore.nextId, h]
    · simp [change, sounds, h, Ne.symm h]
  | notes placement =>
    have hkept : (change rule draft t timeline (notes placement)).soundNotes = timeline.soundNotes :=
      Draft.foldl_putEnd Timeline.soundNotes
        (fun other lane id => by simp only [Draft.retimed, Timeline.setNote]) _ _
    simp [hkept, sounds]
  | refresh time | image time | speed time | measureLine line =>
    simp only [change, sounds, List.filter_nil, List.map_nil, List.append_nil]
    split <;> simp only [Draft.retimed]

/-- A stroke without notes stores its background note where the timeline that
holds it stands. -/
theorem all_draw {stroke : Stroke} (h : ∀ placement, stroke ≠ notes placement) :
    (stroke.draw rule draft).notes.all =
      draft.notes.all ++ (stroke.sounds draft.notes.size).map fun sound =>
        sound.noteOn (draft.timelineAt sound.time) := by
  cases stroke with
  | sound time index => exact draft.notes.all_push _
  | notes placement => exact absurd rfl (h placement)
  | _ => exact (List.append_nil _).symm

theorem exists_stroke_of_mem_soundsFrom {next : Nat} {strokes : List Stroke} {sound : SoundNote}
    (h : sound ∈ soundsFrom next strokes) : ∃ stroke ∈ strokes, sound.time ∈ stroke.times := by
  induction strokes generalizing next with
  | nil => cases h
  | cons stroke rest ih =>
    rcases List.mem_append.1 h with hmem | hmem
    · refine ⟨stroke, List.mem_cons_self, ?_⟩
      cases stroke with
      | sound time index =>
        obtain rfl := List.mem_singleton.1 hmem
        exact List.mem_cons_self
      | _ => cases hmem
    · obtain ⟨other, hother, htime⟩ := ih hmem
      exact ⟨other, List.mem_cons_of_mem _ hother, htime⟩

/-! ## Runs without notes on lanes -/

variable {strokes : List Stroke} {t : Int}

/-- Whether strokes put no notes on lanes. -/
def Noteless (strokes : List Stroke) : Prop := ∀ stroke ∈ strokes, ∀ placement, stroke ≠ notes placement

theorem Noteless.fits (h : Noteless strokes) (lanes : Nat) : ∀ stroke ∈ strokes, stroke.Fits lanes := by
  intro stroke hmem
  cases stroke with
  | notes placement => exact absurd rfl (h _ hmem placement)
  | _ => trivial

theorem size_draw {stroke : Stroke} (h : ∀ placement, stroke ≠ notes placement) :
    (stroke.draw rule draft).notes.size = draft.notes.size + (stroke.sounds draft.notes.size).length := by
  rw [← NoteStore.length_all, all_draw h, List.length_append, NoteStore.length_all, List.length_map]

/-- A run adds its background notes to the timelines they sound at, in order. -/
theorem soundNotes_drawAll (h : Noteless strokes) :
    ((drawAll rule draft strokes).timelineAt t).soundNotes.toList =
      (draft.timelineAt t).soundNotes.toList ++
        ((soundsFrom draft.notes.size strokes).filter (·.time = t)).map (·.id) := by
  induction strokes generalizing draft with
  | nil => exact (List.append_nil _).symm
  | cons stroke rest ih =>
    have hstroke := h stroke List.mem_cons_self
    have hrest : Noteless rest := fun other hmem => h other (List.mem_cons_of_mem _ hmem)
    show ((drawAll rule (stroke.draw rule draft) rest).timelineAt t).soundNotes.toList = _
    rw [ih hrest, timelineAt_draw t (h.fits _ stroke List.mem_cons_self), soundNotes_change, size_draw hstroke,
      soundsFrom, List.filter_append, List.map_append, List.append_assoc]

/-- Strokes before the measure lines do not move timelines. -/
theorem noteOn_change {stroke : Stroke} {timing : Timing} (h : stroke.Opens timing)
    (rule : LongNoteRule) (draft : Draft) (t : Int) (timeline : Timeline) (sound : SoundNote) :
    sound.noteOn (stroke.change rule draft t timeline) = sound.noteOn timeline := by
  cases stroke with
  | measureLine line | notes placement => exact h.elim
  | sound time | refresh time | image time | speed time =>
    simp only [change]
    split <;> simp only [SoundNote.noteOn, Draft.retimed, Timeline.addSoundNote]

/-- Strokes before the measure lines store their background notes in order, each
where the timeline that holds it stands. -/
theorem all_drawAll_opening {timing : Timing} (h : ∀ stroke ∈ strokes, stroke.Opens timing) :
    (drawAll rule draft strokes).notes.all =
      draft.notes.all ++ (soundsFrom draft.notes.size strokes).map fun sound =>
        sound.noteOn (draft.timelineAt sound.time) := by
  induction strokes generalizing draft with
  | nil => exact (List.append_nil _).symm
  | cons stroke rest ih =>
    have hopens := h stroke List.mem_cons_self
    have hstroke : ∀ placement, stroke ≠ notes placement := by
      rintro placement rfl
      exact hopens
    have hfits : stroke.Fits draft.laneCount := by
      cases stroke with
      | notes placement => exact hopens.elim
      | _ => trivial
    show (drawAll rule (stroke.draw rule draft) rest).notes.all = _
    rw [ih fun other hmem => h other (List.mem_cons_of_mem _ hmem), all_draw hstroke, size_draw hstroke, soundsFrom,
      List.map_append, List.append_assoc]
    simp only [timelineAt_draw _ hfits, noteOn_change hopens]

/-- A sample sounds at its start. Sounds are counted from one, since the music
has the number zero. -/
theorem soundsFrom_ofSamples (offset : Int) (media : Media) (next : Nat) :
    soundsFrom next (ofSamples offset media) =
      media.samples.mapIdx fun k (time, _) => ⟨time + offset, ⟨next + k⟩, k + 1⟩ := by
  -- The number of the first sample is left open for the induction on the rest.
  have hfrom : ∀ (samples : List (Int × String)) (number next : Nat),
      soundsFrom next (samples.mapIdx fun k (time, _) =>
          [sound (time + offset) (k + number), refresh (time + offset)]).flatten =
        samples.mapIdx fun k (time, _) => ⟨time + offset, ⟨next + k⟩, k + number⟩ := by
    intro samples
    induction samples with
    | nil => intros; rfl
    | cons sample rest ih =>
      intro number next
      have hrest := ih (number + 1) (next + 1)
      simp only [← Nat.add_assoc, Nat.add_right_comm _ 1] at hrest
      simp only [List.mapIdx_cons, List.flatten_cons, List.cons_append, List.nil_append, soundsFrom, sounds,
        List.length_singleton, List.length_nil, Nat.add_zero, Nat.zero_add, Nat.add_right_comm _ 1, ← Nat.add_assoc,
        hrest]
  exact hfrom media.samples 1 next

theorem notes_drawAll_measureLines (rule : LongNoteRule) (draft : Draft) (lines : List MeasureLine) :
    (drawAll rule draft (lines.map measureLine)).notes = draft.notes := by
  induction lines generalizing draft with
  | nil => rfl
  | cons line rest ih => exact ih ((measureLine line).draw rule draft)

end Stroke

/-! ## The background notes of a plan -/

namespace Plan

variable {plan : Plan} {beatmap : Beatmap} {identity : Chart.Identity} {rule : LongNoteRule}

/-- The background notes of a chart. -/
def sounds (plan : Plan) : List SoundNote := Stroke.soundsFrom 0 plan.opening

theorem noteless_laid (plan : Plan) :
    Stroke.Noteless (plan.opening ++ plan.measureLines.map Stroke.measureLine) := by
  intro stroke hmem placement hstroke
  subst hstroke
  rcases List.mem_append.1 hmem with hmem | hmem
  · exact opens_of_mem hmem
  · obtain ⟨line, -, hline⟩ := List.mem_map.1 hmem
    cases hline

/-- The music comes first and has the id zero, then the samples in the order of
the file, each with the number of its file as its id. -/
theorem sounds_eq (plan : Plan) :
    plan.sounds = ⟨0, ⟨0⟩, 0⟩ :: plan.media.samples.mapIdx fun k (time, _) =>
      ⟨time + alignmentOffset, ⟨k + 1⟩, k + 1⟩ := by
  have hvideos : ∀ next, Stroke.soundsFrom next (Stroke.ofVideos alignmentOffset plan.media) = [] := by
    refine Stroke.soundsFrom_eq_nil fun stroke hmem next => ?_
    obtain ⟨k, hk, rfl⟩ := List.mem_mapIdx.1 hmem
    rfl
  have htempo : ∀ next, Stroke.soundsFrom next (Stroke.ofTempoPoints plan.timing) = [] :=
    Stroke.soundsFrom_map_eq_nil (fun _ _ => rfl) _
  have hscroll : ∀ next, Stroke.soundsFrom next (Stroke.ofScrollPoints plan.timing) = [] :=
    Stroke.soundsFrom_map_eq_nil (fun _ _ => rfl) _
  simp only [sounds, opening, Stroke.soundsFrom_append, hvideos, htempo, hscroll, List.append_nil,
    Stroke.soundsFrom_ofSamples]
  simp [Stroke.ofStart, Stroke.soundsFrom, Stroke.sounds, Nat.add_comm]

/-- A background note as it is stored: at the measure position that the timing
gives. -/
def soundNote (plan : Plan) (sound : SoundNote) : Note :=
  (Note.normal (some sound.sound)).place (plan.timing.measureAt sound.time) (sound.time * 1000)

theorem all_laid (plan : Plan) (rule : LongNoteRule) :
    (plan.laid rule).notes.all = plan.sounds.map plan.soundNote := by
  rw [laid, Stroke.drawAll_append, Stroke.notes_drawAll_measureLines,
    Stroke.all_drawAll_opening fun stroke hmem => opens_of_mem hmem]
  simp only [timelineAt_blank]
  rfl

theorem size_laid (plan : Plan) (rule : LongNoteRule) : (plan.laid rule).notes.size = plan.sounds.length := by
  rw [← NoteStore.length_all, all_laid, List.length_map]

theorem soundNotes_laid (plan : Plan) (rule : LongNoteRule) (t : Int) :
    ((plan.laid rule).timelineAt t).soundNotes.toList = (plan.sounds.filter (·.time = t)).map (·.id) := by
  have hlines : ∀ next, Stroke.soundsFrom next (plan.measureLines.map Stroke.measureLine) = [] :=
    Stroke.soundsFrom_map_eq_nil (fun _ _ => rfl) _
  rw [laid, Stroke.soundNotes_drawAll plan.noteless_laid, Stroke.soundsFrom_append, hlines, List.append_nil,
    timelineAt_blank]
  rfl

theorem soundNotes_draft (h : plan.IsFor beatmap) (rule : LongNoteRule) (t : Int) :
    ((plan.draft rule).timelineAt t).soundNotes.toList = (plan.sounds.filter (·.time = t)).map (·.id) := by
  rw [← plan.soundNotes_laid rule, draft_eq]
  refine congrArg Array.toList (Stroke.kept_drawAll Timeline.soundNotes (fun draft stroke hmem timeline => ?_) ?_)
  · obtain ⟨placement, -, rfl⟩ := List.mem_map.1 hmem
    exact Draft.foldl_putEnd Timeline.soundNotes
      (fun other lane id => by simp only [Draft.retimed, Timeline.setNote]) _ _
  · intro stroke hmem
    obtain ⟨placement, hplacement, rfl⟩ := List.mem_map.1 hmem
    exact placed_fits h rule placement hplacement

/-- **The notes of a chart**, in the order of their ids: background notes, where
the timing puts them, then those of hit objects, where their timelines stand in
the end. -/
theorem all_draft (h : plan.IsFor beatmap) (rule : LongNoteRule) :
    (plan.draft rule).notes.all =
      plan.sounds.map plan.soundNote ++
        (plan.ends rule).map fun noteEnd => noteEnd.noteOn ((plan.draft rule).timelineAt noteEnd.time) := by
  rw [draft_eq, Stroke.all_drawAll_notes (placed_fits h rule), all_laid]
  simp only [Stroke.noteOn_drawAll_notes (placed_fits h rule)]
  rfl

theorem get?_of_mem_sounds (h : plan.IsFor beatmap) (rule : LongNoteRule) {sound : SoundNote}
    (hmem : sound ∈ plan.sounds) :
    (plan.draft rule).notes.get? sound.id = some (plan.soundNote sound) := by
  obtain ⟨k, hk, rfl⟩ := List.mem_iff_getElem.1 hmem
  have hindex : plan.sounds[k].id.index = 0 + k := index_getElem (Stroke.map_index_soundsFrom 0 plan.opening) hk
  rw [← NoteStore.getElem?_all _ plan.sounds[k].id.index, hindex, Nat.zero_add, all_draft h,
    List.getElem?_append_left (by simpa using hk)]
  simp [hk]

theorem mem_soundNotes_iff (h : plan.IsFor beatmap) (rule : LongNoteRule) {t : Int} {id : NoteId} :
    id ∈ ((plan.draft rule).timelineAt t).soundNotes ↔ ∃ sound ∈ plan.sounds, sound.time = t ∧ sound.id = id := by
  rw [← Array.mem_toList_iff, soundNotes_draft h]
  simp [and_assoc]

theorem has_of_mem_sounds (h : plan.IsFor beatmap) (rule : LongNoteRule) {sound : SoundNote}
    (hmem : sound ∈ plan.sounds) : (plan.draft rule).Has sound.time := by
  obtain ⟨stroke, hstroke, htime⟩ := Stroke.exists_stroke_of_mem_soundsFrom hmem
  exact (has_draft h).2 ⟨stroke, by simp [strokes_eq, hstroke], htime⟩

/-! ## Timelines that measure lines move -/

/-- Whether the timeline at a millisecond is left at the measure position that
the timing gives: measure lines may move it to a whole number of measures. -/
def Unmoved (plan : Plan) (t : Int) : Prop :=
  ∀ line, plan.lastLine? t = some line → line.measure = plan.timing.measureAt t

/-- Measures of a whole number of milliseconds, at times of 33 binary digits. -/
structure WholeMeasures (plan : Plan) : Prop where
  whole : ∀ point ∈ plan.timing.tempoPoints, point.Whole
  near : ∀ point ∈ plan.timing.tempoPoints, point.time.natAbs ≤ 2 ^ (33 : Nat)

/-- Lines of whole measures move no timeline. -/
theorem WholeMeasures.unmoved (hwhole : plan.WholeMeasures) (h : plan.IsFor beatmap) (t : Int) :
    plan.Unmoved t := by
  intro line hlast
  obtain ⟨hmem, rfl⟩ := mem_of_lastLine? hlast
  exact Timing.measure_of_mem_measureLines (Timing.chained_of_ofPoints? h.timing) hwhole.whole hwhole.near hmem

theorem measure_draft_iff (h : plan.IsFor beatmap) (rule : LongNoteRule) {t : Int} :
    plan.timing.measureAt t = ((plan.draft rule).timelineAt t).measure ↔ plan.Unmoved t := by
  rw [(shows_draft h rule t).measure, Unmoved]
  cases plan.lastLine? t with
  | none => simp
  | some line => simp [eq_comm]

/-- A background note stands where its timeline does in the end, unless measure
lines move the timeline. -/
theorem standsOn_soundNote_iff (h : plan.IsFor beatmap) (rule : LongNoteRule) (sound : SoundNote) :
    (plan.soundNote sound).StandsOn ((plan.draft rule).timelineAt sound.time) ↔ plan.Unmoved sound.time := by
  rw [← measure_draft_iff h rule]
  exact ⟨fun hstands => hstands.measure, fun hmeasure => ⟨hmeasure, (microTime_draft h rule sound.time).symm⟩⟩

/-- Background notes stand where their timelines do exactly when measure lines
leave all of those unmoved. -/
theorem soundNotes_stand_iff (h : plan.IsFor beatmap) (identity : Chart.Identity)
    (rule : LongNoteRule) :
    (∀ timeline ∈ (plan.chart identity rule).timelines, ∀ id ∈ timeline.soundNotes,
      ∃ note, (plan.chart identity rule).notes.get? id = some note ∧ note.StandsOn timeline) ↔
      ∀ sound ∈ plan.sounds, plan.Unmoved sound.time := by
  refine ⟨?_, ?_⟩
  · intro hstand sound hsound
    have hhas := has_of_mem_sounds h rule hsound
    obtain ⟨note, hnote, hstands⟩ := hstand _ (mem_timelines.2 ⟨sound.time, hhas, rfl⟩) sound.id
      ((mem_soundNotes_iff h rule).2 ⟨sound, hsound, rfl, rfl⟩)
    cases (get?_of_mem_sounds h rule hsound).symm.trans hnote
    exact (standsOn_soundNote_iff h rule sound).1 hstands
  · intro hunmoved timeline hmem id hid
    obtain ⟨t, -, rfl⟩ := mem_timelines.1 hmem
    obtain ⟨sound, hsound, rfl, rfl⟩ := (mem_soundNotes_iff h rule).1 hid
    exact ⟨_, get?_of_mem_sounds h rule hsound, (standsOn_soundNote_iff h rule sound).2 (hunmoved sound hsound)⟩

end Plan

/-- **Where background notes stand.** Each is stored with the time of its
timeline and with the measure position that the timing gives there; so they all
stand where their timelines do exactly when no measure line moves one of those
timelines. None does where measures are a whole number of milliseconds long. -/
theorem Beatmap.convert_sound_notes {beatmap : Beatmap} {identity : Chart.Identity}
    {rule : LongNoteRule} {converted : Converted}
    (h : beatmap.convert identity rule = .ok converted) :
    ∃ plan : Plan, plan.IsFor beatmap ∧
      (∀ timeline ∈ converted.chart.timelines, ∀ id ∈ timeline.soundNotes,
        ∃ note, converted.chart.notes.get? id = some note ∧ note.microTime = timeline.microTime ∧
          note.measure = plan.timing.measureAt timeline.milliTime) ∧
      ((∀ timeline ∈ converted.chart.timelines, ∀ id ∈ timeline.soundNotes,
          ∃ note, converted.chart.notes.get? id = some note ∧ note.StandsOn timeline) ↔
        ∀ sound ∈ plan.sounds, plan.Unmoved sound.time) ∧
      (plan.WholeMeasures → ∀ timeline ∈ converted.chart.timelines, ∀ id ∈ timeline.soundNotes,
        ∃ note, converted.chart.notes.get? id = some note ∧ note.StandsOn timeline) := by
  obtain ⟨plan, hplan, rfl⟩ := convert_eq_ok_iff.1 h
  have hstand := Plan.soundNotes_stand_iff hplan identity rule
  refine ⟨plan, hplan, fun timeline hmem id hid => ?_, hstand, ?_⟩
  · obtain ⟨t, -, rfl⟩ := Plan.mem_timelines.1 hmem
    obtain ⟨sound, hsound, rfl, rfl⟩ := (Plan.mem_soundNotes_iff hplan rule).1 hid
    refine ⟨_, Plan.get?_of_mem_sounds hplan rule hsound, (Plan.microTime_draft hplan rule sound.time).symm, ?_⟩
    rw [(Plan.shows_draft hplan rule sound.time).milliTime]
    rfl
  · intro hwhole
    exact hstand.2 fun sound _ => hwhole.unmoved hplan sound.time

/-- The measures of the first tempo are two seconds long, those of the second
one. -/
theorem Plan.wholeMeasures_overlapping {plan : Plan} (h : plan.IsFor Beatmap.overlapping) :
    plan.WholeMeasures := by
  have hpoints := h.of_timing (fun timing => decide (∀ point ∈ timing.tempoPoints,
    (point.measureLength = Binary64.ofInt (2000 : Nat) ∨ point.measureLength = Binary64.ofInt (1000 : Nat)) ∧
      point.time.natAbs ≤ 2 ^ (33 : Nat))) (by decide +kernel)
  rw [decide_eq_true_eq] at hpoints
  refine ⟨fun point hmem => ?_, fun point hmem => (hpoints point hmem).2⟩
  rcases (hpoints point hmem).1 with hlength | hlength
  · exact ⟨2000, by decide, by decide, hlength⟩
  · exact ⟨1000, by decide, by decide, hlength⟩

theorem Beatmap.convert_sound_notes_overlapping :
    ∃ converted, Beatmap.overlapping.convert ⟨"", "", ""⟩ .longNote = .ok converted ∧
      (converted.chart.timelines.map fun timeline => (timeline.milliTime, timeline.soundNotes)) =
        [(0, #[⟨0⟩]), (38, #[]), (1038, #[]), (2038, #[]), (4038, #[]), (5038, #[⟨1⟩]), (5538, #[])] ∧
      ∃ plan : Plan, plan.IsFor Beatmap.overlapping ∧ plan.WholeMeasures ∧
        (∀ timeline ∈ converted.chart.timelines, ∀ id ∈ timeline.soundNotes,
          ∃ note, converted.chart.notes.get? id = some note ∧ note.microTime = timeline.microTime ∧
            note.measure = plan.timing.measureAt timeline.milliTime) ∧
        ((∀ timeline ∈ converted.chart.timelines, ∀ id ∈ timeline.soundNotes,
            ∃ note, converted.chart.notes.get? id = some note ∧ note.StandsOn timeline) ↔
          ∀ sound ∈ plan.sounds, plan.Unmoved sound.time) ∧
        ∀ timeline ∈ converted.chart.timelines, ∀ id ∈ timeline.soundNotes,
          ∃ note, converted.chart.notes.get? id = some note ∧ note.StandsOn timeline := by
  obtain ⟨converted, h, hsounds⟩ := exists_convert overlapping ⟨"", "", ""⟩ .longNote
    (fun converted => (converted.chart.timelines.map fun timeline => (timeline.milliTime, timeline.soundNotes)) =
      [(0, #[⟨0⟩]), (38, #[]), (1038, #[]), (2038, #[]), (4038, #[]), (5038, #[⟨1⟩]), (5538, #[])])
    (by decide +kernel)
  obtain ⟨plan, hplan, hmeasured, hstand, hwhole⟩ := convert_sound_notes h
  have hmeasures := Plan.wholeMeasures_overlapping hplan
  exact ⟨converted, h, by simpa using hsounds, plan, hplan, hmeasures, hmeasured, hstand, hwhole hmeasures⟩

/-- Between measures of 1333.5 milliseconds, a sample keeps its place a little
before the whole measure that the line at its millisecond moves the timeline to. -/
theorem Beatmap.not_sound_notes_stand_uneven :
    ∃ converted, Beatmap.uneven.convert ⟨"", "", ""⟩ .longNote = .ok converted ∧
      ∃ timeline ∈ converted.chart.timelines, timeline.milliTime = 1371 ∧ timeline.measure = 1 ∧
        ∃ id ∈ timeline.soundNotes, ∃ note, converted.chart.notes.get? id = some note ∧ note.measure < 1 ∧
          ¬note.StandsOn timeline := by
  obtain ⟨converted, h, hsounds⟩ := exists_convert uneven ⟨"", "", ""⟩ .longNote
    (fun converted => ∃ timeline ∈ converted.chart.timelines, timeline.milliTime = 1371 ∧ timeline.measure = 1 ∧
      ∃ id ∈ timeline.soundNotes, ∃ note ∈ converted.chart.notes.get? id, note.measure < 1 ∧
        note.measure ≠ timeline.measure) (by decide +kernel)
  obtain ⟨timeline, hmem, htime, hmeasure, id, hid, note, hnote, hlt, hne⟩ := of_decide_eq_true hsounds
  exact ⟨converted, h, timeline, hmem, htime, hmeasure, id, hid, note, hnote, hlt,
    fun hstands => hne hstands.measure⟩

end ManiaChart
