/-
The last time of a chart. A timeline has something to play or to show exactly
when the music, a video, a sample or a note of a hit object is there
(`Plan.hasContent_draft`): what replaces a note or a background leaves another
one in its place, and nothing else that creates a timeline fills it. Timelines
ascend, so the last one with content is at the greatest of those milliseconds
(`Chart.max?_eq_lastTime`).
-/
import ManiaChart.Proofs.Chart.Counting
import ManiaChart.Proofs.Conversion.MediaFiles
import ManiaChart.Proofs.Conversion.Objects

namespace ManiaChart

/-! ## Content -/

theorem Timeline.hasNote_iff {timeline : Timeline} :
    timeline.hasNote = true ↔ ∃ lane id, timeline.note? lane = some id := by
  simp only [hasNote, Array.any_eq_true, note?, Option.join_eq_some_iff, Array.getElem?_eq_some_iff]
  refine ⟨?_, ?_⟩
  · intro hcell
    obtain ⟨lane, hlane, hsome⟩ := hcell
    obtain ⟨id, hid⟩ := Option.isSome_iff_exists.1 hsome
    exact ⟨lane, id, hlane, hid⟩
  · intro hnote
    obtain ⟨lane, id, hlane, hid⟩ := hnote
    exact ⟨lane, hlane, by rw [hid]; rfl⟩

/-- On ascending timelines, the last time is the greatest of the milliseconds
with content. -/
theorem Chart.max?_eq_lastTime {chart : Chart} {times : List Int}
    (hascending : chart.timelines.Pairwise fun a b => a.milliTime < b.milliTime)
    (htimes : ∀ t, t ∈ times ↔
      ∃ timeline ∈ chart.timelines, timeline.milliTime = t ∧ timeline.hasContent = true)
    (hne : times ≠ []) : times.max? = some chart.lastTime := by
  unfold lastTime
  cases hfind : chart.timelines.reverse.find? Timeline.hasContent with
  | none =>
    obtain ⟨t, hmem⟩ := List.exists_mem_of_ne_nil times hne
    obtain ⟨timeline, htimeline, -, hcontent⟩ := (htimes t).1 hmem
    exact absurd hcontent (List.find?_eq_none.1 hfind timeline (List.mem_reverse.2 htimeline))
  | some last =>
    obtain ⟨hlast, after, before, hsplit, hafter⟩ := List.find?_eq_some_iff_append.1 hfind
    have htimelines : chart.timelines = before.reverse ++ last :: after.reverse := by
      rw [← List.reverse_reverse chart.timelines, hsplit]
      simp
    refine List.max?_eq_some_iff.2 ⟨(htimes _).2 ⟨last, by simp [htimelines], rfl, hlast⟩, fun t hmem => ?_⟩
    obtain ⟨timeline, htimeline, rfl, hcontent⟩ := (htimes t).1 hmem
    rw [htimelines, List.mem_append, List.mem_cons, List.mem_reverse, List.mem_reverse] at htimeline
    rw [htimelines] at hascending
    rcases htimeline with hbefore | rfl | hbehind
    · exact Int.le_of_lt
        ((List.pairwise_append.1 hascending).2.2 timeline (List.mem_reverse.2 hbefore) last List.mem_cons_self)
    · exact Int.le_refl _
    · have hempty := hafter timeline hbehind
      rw [hcontent] at hempty
      cases hempty

/-! ## The milliseconds with content -/

/-- The milliseconds of the notes of a hit object: none if it stands before zero
or its tail cannot be read, two if it is a hold note that ends after it starts. -/
def HitObject.noteTimes (object : HitObject) : List Int :=
  let start := object.time + Plan.alignmentOffset
  if object.time < 0 then []
  else if object.isHold then
    match object.tail? with
    | none => []
    | some tail => if tail ≤ object.time then [start] else [start, tail + Plan.alignmentOffset]
  else [start]

/-- The milliseconds at which a beatmap has something to play or to show: where
the music starts, where its videos and samples with a file start, and where the
notes of its hit objects are. -/
def Beatmap.contentTimes (beatmap : Beatmap) : List Int :=
  0 :: ((beatmap.named .video ++ beatmap.named .sample).map fun event => event.startTime + Plan.alignmentOffset) ++
    beatmap.hitObjects.toList.flatMap HitObject.noteTimes

theorem Beatmap.mem_contentTimes {beatmap : Beatmap} {t : Int} :
    t ∈ beatmap.contentTimes ↔ t = 0 ∨
      (∃ event ∈ beatmap.named .video, event.startTime + Plan.alignmentOffset = t) ∨
      (∃ event ∈ beatmap.named .sample, event.startTime + Plan.alignmentOffset = t) ∨
      ∃ object ∈ beatmap.hitObjects, t ∈ object.noteTimes := by
  simp only [contentTimes, List.cons_append, List.mem_cons, List.mem_append, List.map_append, List.mem_map,
    List.mem_flatMap, Array.mem_toList_iff, or_assoc]

theorem Placement.times_ofObject {keyCount : Nat} {layout : LaneLayout}
    (h : LaneLayout.ofKeyCount? keyCount = some layout) {object : HitObject} {t : Int} :
    (∃ placement, ofObject layout Plan.alignmentOffset object = .ok placement ∧ t ∈ placement.times) ↔
      t ∈ object.noteTimes := by
  obtain ⟨lane, hobject⟩ := exists_ofObject h Plan.alignmentOffset object
  rw [hobject]
  unfold HitObject.noteTimes
  by_cases htime : object.time < 0
  · simp [htime, times]
  · cases hhold : object.isHold with
    | false => simp [htime, times]
    | true =>
      cases object.tail? with
      | none => simp [htime]
      | some tail => by_cases hle : tail ≤ object.time <;> simp [htime, hle, times]

theorem Placement.map_time_endsFrom (rule : LongNoteRule) (next : Nat) (placements : List Placement) :
    (endsFrom rule next placements).map NoteEnd.time = placements.flatMap times := by
  induction placements generalizing next with
  | nil => rfl
  | cons placement rest ih => rw [endsFrom, List.map_append, map_time_ends, ih, List.flatMap_cons]

theorem Beatmap.isEmpty_startingAt_iff {beatmap : Beatmap} {kind : MediaKind} {t : Int} :
    (beatmap.startingAt kind t).isEmpty = false ↔
      ∃ event ∈ beatmap.named kind, event.startTime + Plan.alignmentOffset = t := by
  rw [List.isEmpty_eq_false_iff_exists_mem]
  simp only [mem_startingAt]
  refine ⟨?_, ?_⟩
  · intro hstart
    obtain ⟨k, event, hevent, htime⟩ := hstart
    exact ⟨event, List.mem_of_getElem? hevent, htime⟩
  · intro hstart
    obtain ⟨event, hmem, htime⟩ := hstart
    obtain ⟨k, hevent⟩ := List.getElem?_of_mem hmem
    exact ⟨k, event, hevent, htime⟩

namespace Plan

variable {plan : Plan} {beatmap : Beatmap} {t : Int}

theorem noteAt_iff_exists_object (h : plan.IsFor beatmap) :
    plan.NoteAt t ↔ ∃ object ∈ plan.beatmap.hitObjects, t ∈ object.noteTimes := by
  rw [NoteAt, exists_placed_iff]
  simp only [Placement.times_ofObject h.layout]

/-- A millisecond with notes of hit objects keeps one of them on each of their
lanes, whichever was put there last. -/
theorem hasNote_draft (h : plan.IsFor beatmap) (rule : LongNoteRule) :
    ((plan.draft rule).timelineAt t).hasNote = true ↔ plan.NoteAt t := by
  have hends : plan.NoteAt t ↔ ∃ noteEnd ∈ plan.ends rule, noteEnd.time = t := by
    rw [← List.mem_map, ends, Placement.map_time_endsFrom, List.mem_flatMap]
    rfl
  simp only [Timeline.hasNote_iff, note?_draft h, Option.map_eq_some_iff]
  rw [hends]
  refine ⟨?_, ?_⟩
  · intro hnote
    obtain ⟨lane, -, noteEnd, hlast, -⟩ := hnote
    obtain ⟨hmem, hcell⟩ := mem_of_lastEnd? hlast
    exact ⟨noteEnd, hmem, congrArg Prod.fst hcell⟩
  · intro hnote
    obtain ⟨noteEnd, hmem, rfl⟩ := hnote
    have hlast : lastEnd? (plan.ends rule) noteEnd.cell ≠ none :=
      fun hnone => lastEnd?_eq_none_iff.1 hnone noteEnd hmem rfl
    obtain ⟨winner, hwinner⟩ := Option.ne_none_iff_exists'.1 hlast
    exact ⟨noteEnd.lane, winner.id, winner, hwinner, rfl⟩

theorem soundNotes_draft_ne_iff (h : plan.IsFor beatmap) (rule : LongNoteRule) :
    ((plan.draft rule).timelineAt t).soundNotes.isEmpty = false ↔
      t = 0 ∨ ∃ event ∈ plan.beatmap.named .sample, event.startTime + alignmentOffset = t := by
  have hnil : ((plan.draft rule).timelineAt t).soundNotes.isEmpty = (plan.beatmap.soundsAt t).isEmpty := by
    rw [← filter_sounds, ← Array.isEmpty_toList, soundNotes_draft h, List.isEmpty_map, List.isEmpty_map]
  rw [hnil, ← Beatmap.isEmpty_startingAt_iff, Beatmap.soundsAt]
  by_cases ht : t = 0 <;> simp [ht]

theorem bga_draft_ne_iff (h : plan.IsFor beatmap) (rule : LongNoteRule) (ht : t ≠ 0) :
    ((plan.draft rule).timelineAt t).bga.isSome = true ↔
      ∃ event ∈ plan.beatmap.named .video, event.startTime + alignmentOffset = t := by
  rw [bga_eq_imageAt? h, Beatmap.imageAt?, if_neg ht, Option.or_none, ← Beatmap.isEmpty_startingAt_iff]
  simp [Option.isSome_iff_ne_none]

/-- What there is to play or to show comes from the music, videos, samples and
hit objects alone. -/
theorem hasContent_draft (h : plan.IsFor beatmap) (rule : LongNoteRule) :
    ((plan.draft rule).timelineAt t).hasContent = true ↔ t ∈ plan.beatmap.contentTimes := by
  simp only [Timeline.hasContent, Bool.or_eq_true, Bool.not_eq_true', hasNote_draft h, noteAt_iff_exists_object h,
    soundNotes_draft_ne_iff h, Beatmap.mem_contentTimes]
  by_cases ht : t = 0
  · simp [ht]
  · rw [bga_draft_ne_iff h rule ht]
    simp only [ht, false_or]
    exact or_comm.trans (or_congr_right or_comm)

theorem exists_content_iff (h : plan.IsFor beatmap) (identity : Chart.Identity) (rule : LongNoteRule) :
    t ∈ plan.beatmap.contentTimes ↔ ∃ timeline ∈ (plan.chart identity rule).timelines,
      timeline.milliTime = t ∧ timeline.hasContent = true := by
  refine ⟨?_, ?_⟩
  · intro hmem
    have hmarks : plan.Marks t := by
      rcases Beatmap.mem_contentTimes.1 hmem with rfl | hvideo | hsample | hnote
      · exact .start
      · obtain ⟨event, hnamed, rfl⟩ := hvideo
        obtain ⟨hevent, hkind, hname⟩ := Beatmap.mem_named.1 hnamed
        exact .video hevent hkind hname
      · obtain ⟨event, hnamed, rfl⟩ := hsample
        obtain ⟨hevent, hkind, hname⟩ := Beatmap.mem_named.1 hnamed
        exact .sample hevent hkind hname
      · obtain ⟨object, hobject, htime⟩ := hnote
        obtain ⟨placement, hplacement, htime⟩ := (Placement.times_ofObject h.layout).2 htime
        exact .hitObject hobject hplacement htime
    obtain ⟨timeline, htimeline, rfl⟩ : ∃ timeline ∈ (plan.chart identity rule).timelines, timeline.milliTime = t :=
      (exists_timeline_iff h).2 hmarks
    obtain ⟨-, heq⟩ := (mem_timelines_iff h).1 htimeline
    refine ⟨timeline, htimeline, rfl, ?_⟩
    rw [heq]
    exact (hasContent_draft h rule).2 hmem
  · intro hcontent
    obtain ⟨timeline, htimeline, rfl, hcontent⟩ := hcontent
    obtain ⟨-, heq⟩ := (mem_timelines_iff h).1 htimeline
    rw [heq] at hcontent
    exact (hasContent_draft h rule).1 hcontent

end Plan

/-- **The last time of a converted chart** is the greatest of zero, the starts of
the videos and samples that have a file, and the times of all notes of hit
objects, replaced ones included. Timelines that are there for tempo points,
scroll points or measure lines alone have no content, so none of them counts. -/
theorem Beatmap.convert_last_time {beatmap : Beatmap} {identity : Chart.Identity} {rule : LongNoteRule}
    {converted : Converted} (h : beatmap.convert identity rule = .ok converted) :
    beatmap.contentTimes.max? = some converted.chart.lastTime ∧
      (∃ timeline ∈ converted.chart.timelines,
        timeline.milliTime = converted.chart.lastTime ∧ timeline.hasContent = true) ∧
      ∀ timeline ∈ converted.chart.timelines,
        timeline.hasContent = true ↔ timeline.milliTime ∈ beatmap.contentTimes := by
  obtain ⟨plan, hplan, rfl⟩ := convert_eq_ok_iff.1 h
  obtain rfl := hplan.source
  have hcontent := fun t => Plan.exists_content_iff (t := t) hplan identity rule
  have hmax : plan.beatmap.contentTimes.max? = some (plan.chart identity rule).lastTime :=
    Chart.max?_eq_lastTime (Plan.timelines_ascending hplan identity rule) hcontent (by simp [contentTimes])
  refine ⟨hmax, (hcontent _).1 (List.max?_mem hmax), fun timeline hmem => ?_⟩
  obtain ⟨-, heq⟩ := (Plan.mem_timelines_iff hplan).1 hmem
  rw [heq, Plan.hasContent_draft hplan rule, ← heq]

/-- A hold note that ends long after the last hit object of the file, where
another object takes the place of its tail; a video without a file, a measure
line and a tempo point come later still. -/
def Beatmap.overhanging : Beatmap :=
  { sevenKeys #[{ time := 0, beatLength := 2000 }, { time := 20000, beatLength := 500 }]
      #[{ x := 36, y := 192, time := 1000, typeFlags := 128, hitSound := 0, params := ["9000"] },
        { x := 36, y := 192, time := 9000, typeFlags := 1, hitSound := 0, params := [] },
        { x := 36, y := 192, time := 2000, typeFlags := 1, hitSound := 0, params := [] }] with
    events := #[⟨.media .video, 1500, ["intro.mp4"]⟩, ⟨.media .video, 15000, []⟩] }

theorem Beatmap.convert_last_time_overhanging :
    ∃ converted, Beatmap.overhanging.convert ⟨"", "", ""⟩ .longNote = .ok converted ∧
      Beatmap.overhanging.contentTimes = [0, 1538, 1038, 9038, 9038, 2038] ∧
      converted.chart.lastTime = 9038 ∧
      (converted.chart.timelines.map fun timeline => (timeline.milliTime, timeline.hasContent)) =
        [(0, true), (38, false), (1038, true), (1538, true), (2038, true), (8038, false), (9038, true),
          (16038, false), (20038, false)] ∧
      Beatmap.overhanging.contentTimes.max? = some converted.chart.lastTime ∧
      (∃ timeline ∈ converted.chart.timelines,
        timeline.milliTime = converted.chart.lastTime ∧ timeline.hasContent = true) ∧
      ∀ timeline ∈ converted.chart.timelines,
        timeline.hasContent = true ↔ timeline.milliTime ∈ Beatmap.overhanging.contentTimes := by
  obtain ⟨converted, h, htimelines⟩ := exists_convert overhanging ⟨"", "", ""⟩ .longNote
    (fun converted => (converted.chart.timelines.map fun timeline => (timeline.milliTime, timeline.hasContent)) =
      [(0, true), (38, false), (1038, true), (1538, true), (2038, true), (8038, false), (9038, true),
          (16038, false), (20038, false)])
    (by decide +kernel)
  have hlast := convert_last_time h
  have htimes : overhanging.contentTimes = [0, 1538, 1038, 9038, 9038, 2038] := by decide +kernel
  have hmax : overhanging.contentTimes.max? = some 9038 := by rw [htimes]; rfl
  exact ⟨converted, h, htimes, Option.some.inj (hlast.1.symm.trans hmax), by simpa using htimelines, hlast⟩

end ManiaChart
