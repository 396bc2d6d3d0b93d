/-
Which notes a chart has, and what is reported. The notes are the start of the
music, the samples and the notes of the hit objects, in the order of the file
(`Beatmap.notes`); of the records that cannot be used each is reported once,
scroll points in the order of time, events and hit objects in the order of the
file (`Plan.omissions_eq`). Objects at negative times are placeholders and leave
neither notes nor reports.

The measure positions of the notes hang on the timing, and are left out here.
-/
import ManiaChart.Proofs.Conversion.Objects
import ManiaChart.Proofs.Conversion.SoundNotes
import ManiaChart.Proofs.Timing.StableOrder

namespace ManiaChart

/-- What is reported of a timing point: one that sets a scroll speed which is
not finite is left out. -/
def TimingPoint.omission? (point : TimingPoint) : Option Omission :=
  (Timing.skippedTime? point).map .scrollNotFinite

/-- What is reported of an event: one that should name its file and does not is
left out. -/
def Event.omission? (event : Event) : Option Omission :=
  match event.kind with
  | .other _ => none
  | .media kind =>
    if event.Names kind then none else some (.noFileParameter kind event.startTime kind.fileParameter)

theorem Event.of?_ofEvent? (event : Event) :
    (MediaEvent.ofEvent? event).bind Omission.of? = event.omission? := by
  obtain ⟨eventKind, startTime, params⟩ := event
  cases eventKind with
  | other name => rfl
  | media kind =>
    cases hname : params[kind.fileParameter]? <;>
      simp [MediaEvent.ofEvent?, omission?, Names, Omission.of?, hname]

theorem MediaEvent.omissions_eq (events : List Event) :
    omissions events = events.filterMap Event.omission? := by
  rw [omissions, List.filterMap_filterMap]
  exact congrArg (List.filterMap · events) (funext Event.of?_ofEvent?)

/-! ## The notes of a beatmap -/

namespace Beatmap

/-- The start of the music, and the samples that name a file, in the order of
the file. Sound 0 is the music. -/
def soundNotes (beatmap : Beatmap) : List Note :=
  .timed .normal (some 0) 0 ::
    (beatmap.events.toList.filter (·.Names .sample)).mapIdx fun k event =>
      .timed .normal (some (k + 1)) (event.startTime + Plan.alignmentOffset)

/-- The notes of a beatmap, not measured, in the order of their ids. -/
def notes (rule : LongNoteRule) (beatmap : Beatmap) : List Note :=
  beatmap.hitObjects.toList.foldl (fun stored object => stored ++ object.notes rule stored.length)
    beatmap.soundNotes

end Beatmap

/-- The note of a hit object, no matter where its timeline stands. -/
def Note.unmeasured (note : Note) : Note := { note with measure := 0 }

/-- Hit objects store their notes one after another. -/
theorem Placement.foldl_notes {keyCount : Nat} {layout : LaneLayout}
    (h : LaneLayout.ofKeyCount? keyCount = some layout) (rule : LongNoteRule) (objects : List HitObject)
    (stored : List Note) :
    objects.foldl (fun stored object => stored ++ object.notes rule stored.length) stored =
      stored ++ (endsFrom rule stored.length
        ((objects.map (ofObject layout Plan.alignmentOffset)).filterMap Except.toOption)).map NoteEnd.note := by
  induction objects generalizing stored with
  | nil => exact (List.append_nil stored).symm
  | cons object rest ih =>
    rw [List.foldl_cons, ih, notes_ofObject h, List.map_cons, List.filterMap_cons]
    cases ofObject layout Plan.alignmentOffset object with
    | error omission => simp [Except.toOption]
    | ok placement => simp [Except.toOption, endsFrom]

namespace Plan

variable {plan : Plan} {beatmap : Beatmap}

theorem map_unmeasured_sounds (plan : Plan) :
    plan.sounds.map (fun sound => (plan.soundNote sound).unmeasured) = plan.beatmap.soundNotes := by
  have hsamples : plan.media.samples = _ := MediaEvent.ofKind_eq .sample plan.beatmap.events.toList
  simp only [sounds_eq, hsamples, Beatmap.soundNotes, List.map_cons, List.mapIdx_eq_zipIdx_map, List.zipIdx_map,
    List.map_map]
  rfl

theorem map_unmeasured_draft (h : plan.IsFor beatmap) (rule : LongNoteRule) :
    (plan.draft rule).notes.all.map Note.unmeasured = beatmap.notes rule := by
  have hend : ∀ noteEnd : NoteEnd,
      (noteEnd.noteOn ((plan.draft rule).timelineAt noteEnd.time)).unmeasured = noteEnd.note := by
    intro noteEnd
    simp only [Note.unmeasured, NoteEnd.noteOn, NoteEnd.note, Note.timed, microTime_draft h]
  have hsize : (plan.laid rule).notes.size = beatmap.soundNotes.length := by
    rw [size_laid, ← h.source, ← map_unmeasured_sounds, List.length_map]
  rw [all_draft h, List.map_append, List.map_map, List.map_map, Beatmap.notes, Placement.foldl_notes h.layout,
    ← hsize, ← h.source, ← map_unmeasured_sounds]
  congr 1
  exact List.map_congr_left fun noteEnd _ => hend noteEnd

/-- What a plan leaves out. -/
theorem omissions_eq (h : plan.IsFor beatmap) :
    ∃ ordered, InStableOrder (Timing.alignedTime alignmentOffset) beatmap.timingPoints.toList ordered ∧
      plan.omissions = ordered.filterMap TimingPoint.omission? ++
        beatmap.events.toList.filterMap Event.omission? ++
        beatmap.hitObjects.toList.filterMap HitObject.omission? := by
  have hobjects : plan.placements.filterMap Omission.of? =
      beatmap.hitObjects.toList.filterMap HitObject.omission? := by
    rw [placements, h.source, List.filterMap_map]
    exact congrArg (List.filterMap · _) (funext (Placement.omission_ofObject h.layout alignmentOffset))
  refine ⟨_, Timing.inStableOrder_align alignmentOffset beatmap.timingPoints.toList, ?_⟩
  rw [omissions, hobjects, h.source, MediaEvent.omissions_eq, Timing.skipped_of_ofPoints? h.timing,
    List.map_filterMap]
  rfl

end Plan

/-- **Every record is accounted for once.** The notes of a converted chart are
those of the beatmap's records, in order; and what is reported is what the
records that cannot be used have to report, scroll points in the order of time,
events and hit objects in the order of the file. -/
theorem Beatmap.convert_accounts {beatmap : Beatmap} {identity : Chart.Identity}
    {rule : LongNoteRule} {converted : Converted}
    (h : beatmap.convert identity rule = .ok converted) :
    converted.chart.notes.all.map Note.unmeasured = beatmap.notes rule ∧
      ∃ ordered,
        InStableOrder (Timing.alignedTime Plan.alignmentOffset) beatmap.timingPoints.toList ordered ∧
        converted.omissions = ordered.filterMap TimingPoint.omission? ++
          beatmap.events.toList.filterMap Event.omission? ++
          beatmap.hitObjects.toList.filterMap HitObject.omission? := by
  obtain ⟨plan, hplan, rfl⟩ := convert_eq_ok_iff.1 h
  exact ⟨Plan.map_unmeasured_draft hplan rule, Plan.omissions_eq hplan⟩

/-- A beatmap with records of every kind that are used, and of every kind that
are not. -/
def Beatmap.assorted : Beatmap :=
  { sevenKeys
      #[{ time := 2000, beatLength := 0, definesTempo := false }, { time := 0, beatLength := 500 },
        { time := 1000, beatLength := 0, definesTempo := false }]
      #[{ x := 36, y := 192, time := -1, typeFlags := 128, hitSound := 0, params := [] },
        { x := 36, y := 192, time := 1000, typeFlags := 128, hitSound := 0, params := ["2000"] },
        { x := 36, y := 192, time := 3000, typeFlags := 128, hitSound := 0, params := ["soon"] },
        { x := 36, y := 192, time := 2500, typeFlags := 128, hitSound := 0, params := ["2500"] },
        { x := 109, y := 192, time := 500, typeFlags := 1, hitSound := 0, params := [] }] with
    events := #[⟨.media .sample, 1500, ["0"]⟩, ⟨.media .sample, 700, ["0", "clap.wav"]⟩,
      ⟨.media .background, 0, []⟩, ⟨.other "2", 0, []⟩, ⟨.media .sample, 600, ["0", "snare.wav"]⟩] }

theorem Beatmap.convert_accounts_assorted :
    ∃ converted, Beatmap.assorted.convert ⟨"", "", ""⟩ .longNote = .ok converted ∧
      converted.omissions =
        [.scrollNotFinite 1000, .scrollNotFinite 2000, .noFileParameter .sample 1500 1,
          .noFileParameter .background 0 0, .unreadableTail 3000 "soon"] ∧
      Beatmap.assorted.notes .longNote =
        [.timed .normal (some 0) 0, .timed .normal (some 1) 738, .timed .normal (some 2) 638,
          .timed (.longHead ⟨4⟩ .longNote) none 1038, .timed (.longTail ⟨3⟩ .longNote) none 2038,
          .timed .normal none 2538, .timed .normal none 538] ∧
      converted.chart.notes.all.map Note.unmeasured = Beatmap.assorted.notes .longNote ∧
      ∃ ordered,
        InStableOrder (Timing.alignedTime Plan.alignmentOffset) Beatmap.assorted.timingPoints.toList ordered ∧
        converted.omissions = ordered.filterMap TimingPoint.omission? ++
          Beatmap.assorted.events.toList.filterMap Event.omission? ++
          Beatmap.assorted.hitObjects.toList.filterMap HitObject.omission? := by
  obtain ⟨converted, h, homissions⟩ := exists_convert assorted ⟨"", "", ""⟩ .longNote
    (fun converted => converted.omissions =
      [.scrollNotFinite 1000, .scrollNotFinite 2000, .noFileParameter .sample 1500 1,
        .noFileParameter .background 0 0, .unreadableTail 3000 "soon"]) (by decide +kernel)
  exact ⟨converted, h, by simpa using homissions, by decide +kernel, convert_accounts h⟩

end ManiaChart
