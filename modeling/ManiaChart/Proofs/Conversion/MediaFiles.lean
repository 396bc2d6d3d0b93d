/-
Which file an index refers to. Sounds and backgrounds are numbered by the events
that name a file, in the order of the file (`Beatmap.named`), the music before
all samples and the background image behind all videos. A timeline refers to the
numbers of the events that start there (`Beatmap.startingAt`), so events that
name no file shift nothing.
-/
import Mathlib.Data.List.Induction
import ManiaChart.Proofs.Conversion.Alike

namespace ManiaChart

/-! ## The events that name a file -/

namespace Beatmap

/-- The events of a kind that name a file, in order. -/
def named (beatmap : Beatmap) (kind : MediaKind) : List Event :=
  beatmap.events.toList.filter (·.Names kind)

theorem mem_named {beatmap : Beatmap} {kind : MediaKind} {event : Event} :
    event ∈ beatmap.named kind ↔ event ∈ beatmap.events ∧ event.Names kind := by
  simp [named]

/-- A beatmap with other events. -/
def withEvents (beatmap : Beatmap) (events : List Event) : Beatmap :=
  { beatmap with events := events.toArray }

/-- The numbers of the events of a kind that name a file and start at a
millisecond. -/
def startingAt (beatmap : Beatmap) (kind : MediaKind) (t : Int) : List Nat :=
  ((beatmap.named kind).zipIdx.filter fun (event, _) => event.startTime + Plan.alignmentOffset = t).map Prod.snd

theorem mem_startingAt {beatmap : Beatmap} {kind : MediaKind} {t : Int} {k : Nat} :
    k ∈ beatmap.startingAt kind t ↔
      ∃ event, (beatmap.named kind)[k]? = some event ∧ event.startTime + Plan.alignmentOffset = t := by
  simp [startingAt, List.mem_zipIdx_iff_getElem?]

theorem startingAt_ascending (beatmap : Beatmap) (kind : MediaKind) (t : Int) :
    (beatmap.startingAt kind t).Pairwise (· < ·) := by
  refine List.Pairwise.sublist (List.filter_sublist.map Prod.snd) ?_
  rw [List.zipIdx_map_snd]
  exact List.pairwise_lt_range'

/-- The background image: that of the last event that names one. -/
def image? (beatmap : Beatmap) : Option String :=
  (beatmap.named .background).getLast?.map (Event.file .background)

/-- The sounds that start at a millisecond: the music, which has the number zero,
then samples, which are counted from one. -/
def soundsAt (beatmap : Beatmap) (t : Int) : List Nat :=
  (if t = 0 then [0] else []) ++ (beatmap.startingAt .sample t).map (· + 1)

/-- The background to show from a millisecond on: the last of the videos that
start there, or else the image, which is shown from zero on. -/
def imageAt? (beatmap : Beatmap) (t : Int) : Option Nat :=
  (beatmap.startingAt .video t).max?.or
    (if t = 0 then beatmap.image?.map fun _ => (beatmap.named .video).length else none)

end Beatmap

/-- In an ascending list the last number is the greatest. -/
theorem getLast?_eq_max? {numbers : List Nat} (h : numbers.Pairwise (· < ·)) :
    numbers.getLast? = numbers.max? := by
  induction numbers using List.reverseRecOn with
  | nil => rfl
  | append_singleton rest last ih =>
    refine List.getLast?_concat.trans (List.max?_eq_some_iff.2 ⟨by simp, fun number hmem => ?_⟩).symm
    rcases List.mem_append.1 hmem with hmem | hmem
    · exact Nat.le_of_lt ((List.pairwise_append.1 h).2.2 number hmem last List.mem_cons_self)
    · exact Nat.le_of_eq (List.mem_singleton.1 hmem)

/-! ## What a chart refers to -/

/-- The sound of a stored note. -/
def Chart.soundOf? (chart : Chart) (id : NoteId) : Option Nat := (chart.notes.get? id).bind Note.sound

/-- Whether the files of a chart are those of a beatmap, and its timelines and
notes refer to them as the beatmap does. -/
structure Chart.Refers (chart : Chart) (beatmap : Beatmap) : Prop where
  wavFiles : chart.header.wavFiles =
    fileName beatmap.general.audioFilename :: (beatmap.named .sample).map (Event.file .sample)
  bgaFiles : chart.header.bgaFiles =
    (beatmap.named .video).map (Event.file .video) ++ beatmap.image?.toList
  images : chart.header.stageFile = beatmap.image?.getD "" ∧ chart.header.backBmp = beatmap.image?.getD ""
  /-- Timelines hold the sounds that start there, in order. -/
  sounds : ∀ timeline ∈ chart.timelines,
    timeline.soundNotes.toList.map chart.soundOf? = (beatmap.soundsAt timeline.milliTime).map some
  /-- The music starts at zero. -/
  music : ∃ timeline ∈ chart.timelines, timeline.milliTime = 0 ∧
    ∃ id, timeline.soundNotes[0]? = some id ∧ chart.soundOf? id = some 0
  /-- Each sample has a background note where it starts. -/
  sample : ∀ k event, (beatmap.named .sample)[k]? = some event →
    ∃ timeline ∈ chart.timelines, timeline.milliTime = event.startTime + Plan.alignmentOffset ∧
      ∃ id ∈ timeline.soundNotes, chart.soundOf? id = some (k + 1)
  bga : ∀ timeline ∈ chart.timelines, timeline.bga = beatmap.imageAt? timeline.milliTime
  /-- Each video has a timeline where it starts. -/
  video : ∀ event ∈ beatmap.named .video,
    ∃ timeline ∈ chart.timelines, timeline.milliTime = event.startTime + Plan.alignmentOffset
  bga_lt : ∀ timeline ∈ chart.timelines, ∀ k, timeline.bga = some k → k < chart.header.bgaFiles.length
  sound_lt : ∀ id k, chart.soundOf? id = some k → k < chart.header.wavFiles.length

namespace Plan

variable {plan : Plan} {beatmap : Beatmap} {identity : Chart.Identity} {rule : LongNoteRule} {t : Int}

theorem videos_eq (plan : Plan) :
    plan.media.videos =
      (plan.beatmap.named .video).map fun event => (event.startTime, event.file .video) :=
  MediaEvent.ofKind_eq .video plan.beatmap.events.toList

theorem samples_eq (plan : Plan) :
    plan.media.samples =
      (plan.beatmap.named .sample).map fun event => (event.startTime, event.file .sample) :=
  MediaEvent.ofKind_eq .sample plan.beatmap.events.toList

theorem background_eq (plan : Plan) : plan.media.background = plan.beatmap.image? := by
  have hbackgrounds := MediaEvent.ofKind_eq .background plan.beatmap.events.toList
  rw [media, Media.ofBeatmap, hbackgrounds, List.getLast?_map, Option.map_map]
  rfl

/-! ## Sounds -/

theorem filter_sounds (plan : Plan) (t : Int) :
    (plan.sounds.filter (·.time = t)).map (·.sound) = plan.beatmap.soundsAt t := by
  have hsamples : (plan.sounds.tail.filter (·.time = t)).map (·.sound) =
      (plan.beatmap.startingAt .sample t).map (· + 1) := by
    rw [sounds_eq, List.tail_cons, samples_eq, List.mapIdx_eq_zipIdx_map, List.zipIdx_map, List.map_map,
      List.filter_map, List.map_map, Beatmap.startingAt, List.map_map]
    rfl
  have hsounds : plan.sounds = ⟨0, ⟨0⟩, 0⟩ :: plan.sounds.tail := by rw [sounds_eq, List.tail_cons]
  rw [hsounds, List.filter_cons, Beatmap.soundsAt, ← hsamples]
  by_cases ht : t = 0
  · simp [ht]
  · simp [ht, Ne.symm ht]

theorem mem_sounds_of_sample {k : Nat} {event : Event} (h : (plan.beatmap.named .sample)[k]? = some event) :
    ⟨event.startTime + alignmentOffset, ⟨k + 1⟩, k + 1⟩ ∈ plan.sounds := by
  rw [sounds_eq, samples_eq]
  refine List.mem_cons_of_mem _ (List.mem_of_getElem? (i := k) ?_)
  rw [List.getElem?_mapIdx, List.getElem?_map, h]
  rfl

theorem soundOf?_of_mem_sounds (h : plan.IsFor beatmap) {sound : SoundNote} (hmem : sound ∈ plan.sounds) :
    (plan.chart identity rule).soundOf? sound.id = some sound.sound := by
  have hchart : (plan.chart identity rule).notes = (plan.draft rule).notes := rfl
  rw [Chart.soundOf?, hchart, get?_of_mem_sounds h rule hmem]
  rfl

theorem map_soundOf?_draft (h : plan.IsFor beatmap) (t : Int) :
    ((plan.draft rule).timelineAt t).soundNotes.toList.map (plan.chart identity rule).soundOf? =
      (plan.beatmap.soundsAt t).map some := by
  rw [soundNotes_draft h, ← filter_sounds, List.map_map, List.map_map]
  exact List.map_congr_left fun sound hmem => soundOf?_of_mem_sounds h (List.mem_of_mem_filter hmem)

theorem exists_of_soundOf? (h : plan.IsFor beatmap) {id : NoteId} {k : Nat}
    (hsound : (plan.chart identity rule).soundOf? id = some k) : ∃ sound ∈ plan.sounds, sound.sound = k := by
  obtain ⟨note, hnote, hk⟩ := Option.bind_eq_some_iff.1 hsound
  have hget : (plan.draft rule).notes.get? id = some note := hnote
  rw [← NoteStore.getElem?_all _ id.index, all_draft h] at hget
  rcases List.mem_append.1 (List.mem_of_getElem? hget) with hmem | hmem
  · obtain ⟨sound, hstored, rfl⟩ := List.mem_map.1 hmem
    exact ⟨sound, hstored, Option.some.inj hk⟩
  · obtain ⟨noteEnd, -, rfl⟩ := List.mem_map.1 hmem
    cases hk

theorem sound_lt_of_mem_sounds {sound : SoundNote} (hmem : sound ∈ plan.sounds) :
    sound.sound < plan.media.wavFiles.length := by
  rw [Media.wavFiles, List.length_cons, List.length_map]
  rw [sounds_eq] at hmem
  rcases List.mem_cons.1 hmem with rfl | hmem
  · exact Nat.succ_pos _
  · obtain ⟨k, hk, rfl⟩ := List.mem_mapIdx.1 hmem
    exact Nat.succ_lt_succ hk

/-! ## Backgrounds -/

theorem filterMap_opening (plan : Plan) (t : Int) :
    plan.opening.filterMap (Stroke.imageAt? t) =
      (if t = 0 then [plan.media.backgroundIndex] else []) ++ (plan.beatmap.startingAt .video t).map some := by
  have hsamples : (Stroke.ofSamples alignmentOffset plan.media).filterMap (Stroke.imageAt? t) = [] := by
    rw [Stroke.ofSamples, List.filterMap_flatten, List.flatten_eq_nil_iff]
    intro images hmem
    obtain ⟨strokes, hstrokes, rfl⟩ := List.mem_map.1 hmem
    obtain ⟨k, hk, rfl⟩ := List.mem_mapIdx.1 hstrokes
    rfl
  have htempo : (Stroke.ofTempoPoints plan.timing).filterMap (Stroke.imageAt? t) = [] := by
    simp [Stroke.ofTempoPoints, Stroke.imageAt?, Function.comp_def, List.filterMap_map]
  have hscroll : (Stroke.ofScrollPoints plan.timing).filterMap (Stroke.imageAt? t) = [] := by
    simp [Stroke.ofScrollPoints, Stroke.imageAt?, Function.comp_def, List.filterMap_map]
  have hvideos : (Stroke.ofVideos alignmentOffset plan.media).filterMap (Stroke.imageAt? t) =
      (plan.beatmap.startingAt .video t).map some := by
    rw [Stroke.ofVideos, videos_eq, List.mapIdx_eq_zipIdx_map, List.zipIdx_map, List.map_map, List.filterMap_map,
      Beatmap.startingAt, List.map_map, ← List.filterMap_eq_map, List.filterMap_filter]
    refine List.filterMap_congr fun entry _ => ?_
    simp [Stroke.imageAt?, eq_comm]
  have hstart : (Stroke.ofStart plan.media).filterMap (Stroke.imageAt? t) =
      if t = 0 then [plan.media.backgroundIndex] else [] := by
    by_cases ht : t = 0 <;> simp [Stroke.ofStart, Stroke.imageAt?, ht, List.filterMap_cons]
  simp only [opening, List.filterMap_append, hsamples, htempo, hscroll, hvideos, hstart, List.append_nil]

theorem bga_eq_imageAt? (h : plan.IsFor beatmap) (rule : LongNoteRule) (t : Int) :
    ((plan.draft rule).timelineAt t).bga = plan.beatmap.imageAt? t := by
  have hindex : plan.media.backgroundIndex =
      plan.beatmap.image?.map fun _ => (plan.beatmap.named .video).length := by
    rw [Media.backgroundIndex, background_eq, videos_eq, List.length_map]
  rw [bga_draft h, filterMap_opening, Beatmap.imageAt?, ← hindex,
    ← getLast?_eq_max? (plan.beatmap.startingAt_ascending .video t), List.getLast?_append, List.getLast?_map]
  cases (plan.beatmap.startingAt .video t).getLast? with
  | some k => rfl
  | none => by_cases ht : t = 0 <;> simp [ht]

theorem lt_of_imageAt? {k : Nat} (h : plan.beatmap.imageAt? t = some k) : k < plan.media.bgaFiles.length := by
  rw [Media.bgaFiles, List.length_append, List.length_map, videos_eq, List.length_map, background_eq]
  rw [Beatmap.imageAt?, Option.or_eq_some_iff] at h
  rcases h with hvideo | ⟨-, himage⟩
  · obtain ⟨event, hevent, -⟩ := Beatmap.mem_startingAt.1 (List.max?_mem hvideo)
    obtain ⟨hk, -⟩ := List.getElem?_eq_some_iff.1 hevent
    omega
  · split at himage
    · obtain ⟨file, hfile, rfl⟩ := Option.map_eq_some_iff.1 himage
      simp [hfile]
    · cases himage

/-! ## All that a chart refers to -/

theorem exists_timeline_of_mem_sounds (h : plan.IsFor beatmap) (identity : Chart.Identity) (rule : LongNoteRule)
    {sound : SoundNote} (hmem : sound ∈ plan.sounds) :
    ∃ timeline ∈ (plan.chart identity rule).timelines, timeline.milliTime = sound.time ∧
      sound.id ∈ timeline.soundNotes ∧ (plan.chart identity rule).soundOf? sound.id = some sound.sound :=
  ⟨_, mem_timelines.2 ⟨sound.time, has_of_mem_sounds h rule hmem, rfl⟩, (shows_draft h rule _).milliTime,
    (mem_soundNotes_iff h rule).2 ⟨sound, hmem, rfl, rfl⟩, soundOf?_of_mem_sounds h hmem⟩

theorem sounds_of_mem_timelines (h : plan.IsFor beatmap) {timeline : Timeline}
    (hmem : timeline ∈ (plan.chart identity rule).timelines) :
    timeline.soundNotes.toList.map (plan.chart identity rule).soundOf? =
      (plan.beatmap.soundsAt timeline.milliTime).map some := by
  obtain ⟨t, -, rfl⟩ := mem_timelines.1 hmem
  rw [map_soundOf?_draft h, (shows_draft h rule t).milliTime]

theorem bga_of_mem_timelines (h : plan.IsFor beatmap) {timeline : Timeline}
    (hmem : timeline ∈ (plan.chart identity rule).timelines) :
    timeline.bga = plan.beatmap.imageAt? timeline.milliTime := by
  obtain ⟨t, -, rfl⟩ := mem_timelines.1 hmem
  rw [bga_eq_imageAt? h, (shows_draft h rule t).milliTime]

theorem refers_chart (h : plan.IsFor beatmap) (identity : Chart.Identity) (rule : LongNoteRule) :
    (plan.chart identity rule).Refers plan.beatmap where
  wavFiles := by
    show Media.wavFiles plan.media = _
    rw [Media.wavFiles, samples_eq, List.map_map]
    rfl
  bgaFiles := by
    show Media.bgaFiles plan.media = _
    rw [Media.bgaFiles, videos_eq, background_eq, List.map_map]
    rfl
  images := by
    rw [← background_eq]
    exact ⟨rfl, rfl⟩
  sounds _ hmem := sounds_of_mem_timelines h hmem
  music := by
    have hmusic : ⟨0, ⟨0⟩, 0⟩ ∈ plan.sounds := by simp [sounds_eq]
    obtain ⟨timeline, hmem, htime, -⟩ := exists_timeline_of_mem_sounds h identity rule hmusic
    have hfirst := congrArg (·[0]?) (sounds_of_mem_timelines h hmem)
    simp only [htime, Beatmap.soundsAt, List.getElem?_map] at hfirst
    refine ⟨timeline, hmem, htime, ?_⟩
    simpa using hfirst
  sample := by
    intro k event hevent
    have hsound := mem_sounds_of_sample hevent
    obtain ⟨timeline, hmem, htime, hid, hfile⟩ := exists_timeline_of_mem_sounds h identity rule hsound
    exact ⟨timeline, hmem, htime, _, hid, hfile⟩
  bga _ hmem := bga_of_mem_timelines h hmem
  video := by
    intro event hevent
    obtain ⟨hmem, hkind, hname⟩ := Beatmap.mem_named.1 hevent
    exact (exists_timeline_iff h).2 (.video hmem hkind hname)
  bga_lt _ hmem _ hk := lt_of_imageAt? ((bga_of_mem_timelines h hmem).symm.trans hk)
  sound_lt _ _ hsound := by
    obtain ⟨sound, hmem, rfl⟩ := exists_of_soundOf? h hsound
    exact sound_lt_of_mem_sounds hmem

/-- An event that names no file becomes none. -/
theorem media_withEvents {before after : List Event} {event : Event}
    (hevents : beatmap.events.toList = before ++ event :: after) (hnames : ∀ kind, ¬event.Names kind) :
    Media.ofBeatmap (beatmap.withEvents (before ++ after)) = Media.ofBeatmap beatmap := by
  have hkind : ∀ kind, MediaEvent.ofKind kind (MediaEvent.ofEvents (before ++ after)) =
      MediaEvent.ofKind kind (MediaEvent.ofEvents (before ++ event :: after)) := by
    intro kind
    rw [MediaEvent.ofKind_eq, MediaEvent.ofKind_eq, List.filter_append, List.filter_append,
      List.filter_cons_of_neg (by simpa using hnames kind)]
  simp only [Media.ofBeatmap, Beatmap.withEvents, hevents, hkind]

end Plan

/-- **The files of a converted chart.** Its tables list the files that the
beatmap names, in order, and every index refers to the file of the event it
comes from; so an event that names no file may be taken out without a change to
the chart. -/
theorem Beatmap.convert_refers {beatmap : Beatmap} {identity : Chart.Identity} {rule : LongNoteRule}
    {converted : Converted} (h : beatmap.convert identity rule = .ok converted) :
    converted.chart.Refers beatmap ∧
      ∀ before event after, beatmap.events.toList = before ++ event :: after → (∀ kind, ¬event.Names kind) →
        ∃ other, (beatmap.withEvents (before ++ after)).convert identity rule = .ok other ∧
          other.chart = converted.chart := by
  obtain ⟨plan, hplan, rfl⟩ := convert_eq_ok_iff.1 h
  obtain rfl := hplan.source
  refine ⟨Plan.refers_chart hplan identity rule, fun before event after hevents hnames => ?_⟩
  let other : Plan := { plan with beatmap := plan.beatmap.withEvents (before ++ after) }
  have hother : other.IsFor (plan.beatmap.withEvents (before ++ after)) :=
    ⟨rfl, hplan.mode, hplan.layout, hplan.timing, hplan.stop⟩
  have hmedia : other.media = plan.media := Plan.media_withEvents hevents hnames
  have hheader : other.header rule = plan.header rule := by
    rw [Plan.header, hmedia]
    rfl
  have hstrokes : other.strokes = plan.strokes := by
    rw [Plan.strokes, hmedia]
    rfl
  have hdraft : other.draft rule = plan.draft rule := by
    rw [Plan.draft, hstrokes]
    rfl
  refine ⟨_, convert_eq_ok_iff.2 ⟨other, hother, rfl⟩, ?_⟩
  show other.chart identity rule = plan.chart identity rule
  rw [Plan.chart, Plan.chart, hheader, hdraft]

/-- A beatmap with two backgrounds, and with a video and a sample that name no
file between those that do. -/
def Beatmap.illustrated : Beatmap :=
  { sevenKeys #[{ time := 0, beatLength := 500 }]
      #[{ x := 36, y := 192, time := 1000, typeFlags := 1, hitSound := 0, params := [] }] with
    general := { audioFilename := "music.mp3", mode := Plan.maniaMode }
    events := #[⟨.media .background, 0, ["day.png"]⟩, ⟨.media .video, 100, ["intro.mp4"]⟩,
      ⟨.media .video, 100, []⟩, ⟨.media .sample, 700, ["0"]⟩, ⟨.media .video, 100, ["\"loop.mp4\""]⟩,
      ⟨.media .sample, 700, ["0", "clap.wav"]⟩, ⟨.media .background, 0, ["night.png"]⟩] }

theorem Beatmap.convert_refers_illustrated :
    ∃ converted, Beatmap.illustrated.convert ⟨"", "", ""⟩ .longNote = .ok converted ∧
      converted.chart.header.wavFiles = ["music.mp3", "clap.wav"] ∧
      converted.chart.header.bgaFiles = ["intro.mp4", "loop.mp4", "night.png"] ∧
      converted.chart.timelines.map (fun timeline => (timeline.milliTime, timeline.bga, timeline.soundNotes)) =
        [(0, some 2, #[⟨0⟩]), (38, none, #[]), (138, some 1, #[]), (738, none, #[⟨1⟩]), (1038, none, #[])] ∧
      converted.chart.Refers Beatmap.illustrated ∧
      ∀ before event after, Beatmap.illustrated.events.toList = before ++ event :: after →
        (∀ kind, ¬event.Names kind) →
          ∃ other, (Beatmap.illustrated.withEvents (before ++ after)).convert ⟨"", "", ""⟩ .longNote = .ok other ∧
            other.chart = converted.chart := by
  obtain ⟨converted, h, hrun⟩ := exists_convert illustrated ⟨"", "", ""⟩ .longNote (fun converted =>
    converted.chart.header.wavFiles = ["music.mp3", "clap.wav"] ∧
      converted.chart.header.bgaFiles = ["intro.mp4", "loop.mp4", "night.png"] ∧
      converted.chart.timelines.map (fun timeline => (timeline.milliTime, timeline.bga, timeline.soundNotes)) =
        [(0, some 2, #[⟨0⟩]), (38, none, #[]), (138, some 1, #[]), (738, none, #[⟨1⟩]), (1038, none, #[])])
    (by decide +kernel)
  obtain ⟨hwav, hbga, htimelines⟩ := of_decide_eq_true hrun
  exact ⟨converted, h, hwav, hbga, htimelines, convert_refers h⟩

end ManiaChart
