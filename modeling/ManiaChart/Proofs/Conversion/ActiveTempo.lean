/-
When the timelines of a converted chart show the active tempo. A measure line
carries the tempo of its stretch, and a line may fall where another tempo is
active already: on the next tempo point. If the stretch that starts there draws
no line of its own and no note is there, the line is the last to write, and the
timeline shows the tempo that has just ended (`Plan.Overwrites`).
-/
import ManiaChart.Proofs.Conversion.Milliseconds

namespace ManiaChart

namespace Plan

variable {plan : Plan} {beatmap : Beatmap} {identity : Chart.Identity} {rule : LongNoteRule}

/-- Whether a stretch, from `point` to `next`, leaves its tempo at a millisecond
where another one is active. -/
structure Overwrites (plan : Plan) (t : Int) (point : TempoPoint) (next : Int) : Prop where
  last : plan.timing.LastDrawnBy plan.stop t point next
  short : ¬Timing.MarkedAtEnds point next
  free : ¬plan.NoteAt t
  differs : point.bpm ≠ plan.timing.bpmAt t

theorem bpm_of_overwrites (h : plan.IsFor beatmap) (rule : LongNoteRule) {t : Int}
    {point : TempoPoint} {next : Int} (hover : plan.Overwrites t point next) :
    ((plan.draft rule).timelineAt t).bpm = point.bpm := by
  obtain ⟨line, hlast, hmem, -⟩ := Timing.getLast?_of_lastDrawnBy hover.last
  have hline : plan.lastLine? t = some line := hlast
  rw [(shows_draft h rule t).bpm, if_neg hover.free, hline, Option.map_some, Option.getD_some]
  rcases Timing.bpm_of_mem_stretchLines hmem with ⟨hlong, -⟩ | ⟨-, hbpm⟩
  · exact absurd hlong hover.short
  · exact hbpm

theorem bpm_of_not_overwrites (h : plan.IsFor beatmap) (rule : LongNoteRule) {t : Int}
    (hnone : ∀ point next, ¬plan.Overwrites t point next) :
    ((plan.draft rule).timelineAt t).bpm = plan.timing.bpmAt t := by
  rw [(shows_draft h rule t).bpm]
  split
  · rfl
  next hfree =>
  cases hlast : plan.lastLine? t with
  | none => rfl
  | some line =>
    obtain ⟨point, next, hdrawn, hmem, rfl⟩ := Timing.lastDrawnBy_of_getLast? hlast
    rw [Option.map_some, Option.getD_some]
    rcases Timing.bpm_of_mem_stretchLines hmem with ⟨-, hbpm⟩ | ⟨hshort, hbpm⟩
    · exact hbpm
    · rw [hbpm]
      exact Decidable.of_not_not fun hdiffers => hnone point next ⟨hdrawn, hshort, hfree, hdiffers⟩

theorem marks_of_overwrites {t : Int} {point : TempoPoint} {next : Int}
    (hover : plan.Overwrites t point next) : plan.Marks t := by
  obtain ⟨before, after, hsplit, ⟨line, hmem, rfl⟩, -⟩ := hover.last
  exact .measureLine (Timing.mem_measureLines.2 ⟨(point, next), by simp [hsplit], hmem⟩)

/-- A chart shows the active tempo throughout unless a stretch overwrites it
somewhere. -/
theorem bpm_timelines_iff (h : plan.IsFor beatmap) (identity : Chart.Identity)
    (rule : LongNoteRule) :
    (∀ timeline ∈ (plan.chart identity rule).timelines, timeline.bpm = plan.timing.bpmAt timeline.milliTime) ↔
      ∀ t point next, ¬plan.Overwrites t point next := by
  refine ⟨?_, ?_⟩
  · intro hactive t point next hover
    have hhas : (plan.draft rule).Has t := (has_draft h).2 (marks_iff.1 (marks_of_overwrites hover))
    have hbpm := hactive _ (mem_timelines.2 ⟨t, hhas, rfl⟩)
    rw [(shows_draft h rule t).milliTime, bpm_of_overwrites h rule hover] at hbpm
    exact hover.differs hbpm
  · intro hnone timeline hmem
    obtain ⟨t, -, rfl⟩ := mem_timelines.1 hmem
    rw [(shows_draft h rule t).milliTime]
    exact bpm_of_not_overwrites h rule (hnone t)

/-! ## Positive tempos -/

/-- Positive tempos, set at times of 33 binary digits. -/
structure Paced (plan : Plan) : Prop where
  positive : ∀ point ∈ plan.timing.tempoPoints, 0 < point.beatLength
  near : ∀ point ∈ plan.timing.tempoPoints, point.time.natAbs ≤ 2 ^ (33 : Nat)

/-- Whether the chart ends a measure or more before its last tempo point, so
that the stretch there draws nothing, while the stretch before it, from `point`,
draws a line exactly at its end, where no note is. -/
structure CutShort (plan : Plan) (point last : TempoPoint) : Prop where
  points : ∃ earlier, plan.timing.tempoPoints = earlier ++ [point, last]
  silent : (Binary64.ofInt (plan.stop - last.time) / last.measureLength).toInt64 < 0
  reached : plan.timing.DrawsAt point last.time last.time
  short : ¬Timing.MarkedAtEnds point last.time
  free : ¬plan.NoteAt last.time
  differs : point.bpm ≠ last.bpm

theorem overwrites_of_cutShort (hpaced : plan.Paced) {point last : TempoPoint}
    (h : plan.CutShort point last) : plan.Overwrites last.time point last.time := by
  obtain ⟨earlier, hpoints⟩ := h.points
  have hlast : last ∈ plan.timing.tempoPoints := by simp [hpoints]
  have hsilent : ¬plan.timing.DrawsAt last plan.stop last.time := by
    rw [Timing.drawsAt_time_iff (Timing.measureLength_pos (hpaced.positive last hlast))]
    exact Int.not_le.2 h.silent
  obtain ⟨before, hbefore⟩ := Timing.stretchesOf_append plan.stop earlier [last] point
  refine ⟨⟨before, [(last, plan.stop)], ?_, h.reached, ?_⟩, h.short, h.free, ?_⟩
  · rw [Timing.stretchesTo_eq, hpoints, hbefore]
    rfl
  · intro later hlater
    obtain rfl := List.mem_singleton.1 hlater
    exact hsilent
  · rw [Timing.bpmAt_tempoPoint hlast]
    exact h.differs

theorem cutShort_of_overwrites (hpaced : plan.Paced) {t next : Int} {point : TempoPoint}
    (h : plan.Overwrites t point next) : ∃ last, plan.CutShort point last := by
  obtain ⟨before, after, hsplit, hdraws, hafter⟩ := h.last
  rw [Timing.stretchesTo_eq] at hsplit
  obtain ⟨earlier, later, hpoints, rfl, rfl⟩ := Timing.split_of_stretchesOf hsplit
  have hpoint : point ∈ plan.timing.tempoPoints := by simp [hpoints]
  have hpos := Timing.measureLength_pos (hpaced.positive point hpoint)
  have hascending := plan.timing.tempoPoints_ascending
  rw [hpoints, List.pairwise_append] at hascending
  obtain ⟨-, hascending, -⟩ := hascending
  -- Wherever the point is the active one, its line carries the active tempo.
  have hactive : point.time ≤ t → ¬∀ other ∈ later, t < other.time := fun hle hlt => by
    refine h.differs ?_
    rw [Timing.bpmAt, Timing.tempoAt_of_split hpoints hle hlt]
  cases later with
  | nil =>
    have hall : ∀ other ∈ ([] : List TempoPoint), t < other.time := fun _ hmem => by cases hmem
    by_cases hle : point.time ≤ plan.stop
    · exact absurd hall (hactive (Timing.time_le_of_drawsAt hpos hle hdraws))
    · have htime : t = point.time := Timing.eq_time_of_drawsAt hpos (Int.not_le.1 hle) hdraws
      exact absurd hall (hactive (Int.le_of_eq htime.symm))
  | cons last rest =>
    have hlast : last ∈ plan.timing.tempoPoints := by simp [hpoints]
    have hposlast := Timing.measureLength_pos (hpaced.positive last hlast)
    have hlt : point.time < last.time := (List.pairwise_cons.1 hascending).1 last List.mem_cons_self
    have hrest := (List.pairwise_cons.1 (List.pairwise_cons.1 hascending).2).1
    have hle : point.time ≤ t := Timing.time_le_of_drawsAt hpos (Int.le_of_lt hlt) hdraws
    have hto : t ≤ last.time := by
      have hnear := hpaced.near point hpoint
      have hnearlast := hpaced.near last hlast
      exact Timing.le_stop_of_drawsAt hpos (Int.le_of_lt hlt) (by omega) hdraws
    have htime : t = last.time := by
      apply Decidable.byContradiction
      intro hne
      refine hactive hle fun other hmem => ?_
      rcases List.mem_cons.1 hmem with rfl | hmem
      · omega
      · have hother := hrest other hmem
        omega
    subst htime
    have hfirst : (last, Timing.endBefore plan.stop rest) ∈ Timing.stretchesOf plan.stop (last :: rest) :=
      List.mem_cons_self
    have hsilent := hafter _ hfirst
    rw [Timing.drawsAt_time_iff hposlast] at hsilent
    cases rest with
    | nil =>
      refine ⟨last, ⟨⟨earlier, hpoints⟩, Int.not_le.1 hsilent, hdraws, h.short, h.free, ?_⟩⟩
      rw [← Timing.bpmAt_tempoPoint hlast]
      exact h.differs
    | cons next more =>
      have hnext := hrest next List.mem_cons_self
      exact absurd (Timing.measures_nonneg hposlast (Int.le_of_lt hnext)) hsilent

/-- Where tempos are positive, only the last tempo point can be missed. -/
theorem bpm_timelines_iff_of_paced (h : plan.IsFor beatmap) (hpaced : plan.Paced)
    (identity : Chart.Identity) (rule : LongNoteRule) :
    (∀ timeline ∈ (plan.chart identity rule).timelines, timeline.bpm = plan.timing.bpmAt timeline.milliTime) ↔
      ∀ point last, ¬plan.CutShort point last := by
  rw [bpm_timelines_iff h]
  refine ⟨?_, ?_⟩
  · intro hnone point last hcut
    exact hnone _ _ _ (overwrites_of_cutShort hpaced hcut)
  · intro hnone t point next hover
    obtain ⟨last, hcut⟩ := cutShort_of_overwrites hpaced hover
    exact hnone point last hcut

end Plan

/-- **Where the active tempo is missed.** The timelines of a converted chart all
show the active tempo exactly when no stretch overwrites it with its own; where
tempos are positive, exactly when the chart is not cut short of its last tempo
point. -/
theorem Beatmap.convert_active_tempo {beatmap : Beatmap} {identity : Chart.Identity}
    {rule : LongNoteRule} {converted : Converted}
    (h : beatmap.convert identity rule = .ok converted) :
    ∃ plan : Plan, plan.IsFor beatmap ∧
      ((∀ timeline ∈ converted.chart.timelines, timeline.bpm = plan.timing.bpmAt timeline.milliTime) ↔
        ∀ t point next, ¬plan.Overwrites t point next) ∧
      (plan.Paced →
        ((∀ timeline ∈ converted.chart.timelines, timeline.bpm = plan.timing.bpmAt timeline.milliTime) ↔
          ∀ point last, ¬plan.CutShort point last)) := by
  obtain ⟨plan, hplan, rfl⟩ := convert_eq_ok_iff.1 h
  exact ⟨plan, hplan, Plan.bpm_timelines_iff hplan identity rule,
    fun hpaced => Plan.bpm_timelines_iff_of_paced hplan hpaced identity rule⟩

/-! ## A tempo point that is missed -/

/-- Two tempo points on a measure line, and a note more than a measure before
the second one. -/
def Beatmap.cutShort : Beatmap :=
  .sevenKeys #[{ time := 0, beatLength := 500 }, { time := 4000, beatLength := 250 }]
    #[{ x := 36, y := 192, time := 1000, typeFlags := 1, hitSound := 0, params := [] }]

theorem Beatmap.exists_convert_cutShort :
    ∃ converted, Beatmap.cutShort.convert ⟨"", "", ""⟩ .longNote = .ok converted ∧
      (converted.chart.timelines.map fun timeline => (timeline.milliTime, timeline.bpm)) =
        [(0, 120), (38, 120), (1038, 120), (2038, 120), (4038, 120)] := by
  obtain ⟨converted, h, hrun⟩ := exists_convert cutShort ⟨"", "", ""⟩ .longNote
    (fun converted => (converted.chart.timelines.map fun timeline => (timeline.milliTime, timeline.bpm)) =
      [(0, 120), (38, 120), (1038, 120), (2038, 120), (4038, 120)]) (by decide +kernel)
  exact ⟨converted, h, by simpa using hrun⟩

theorem Plan.paced_cutShort {plan : Plan} (h : plan.IsFor Beatmap.cutShort) : plan.Paced := by
  have hpoints := h.of_timing (fun timing => decide (∀ point ∈ timing.tempoPoints, 0 < point.beatLength ∧
    point.time.natAbs ≤ 2 ^ (33 : Nat))) (by decide +kernel)
  rw [decide_eq_true_eq] at hpoints
  exact ⟨fun point hmem => (hpoints point hmem).1, fun point hmem => (hpoints point hmem).2⟩

theorem Beatmap.convert_active_tempo_cutShort :
    ∃ converted, Beatmap.cutShort.convert ⟨"", "", ""⟩ .longNote = .ok converted ∧
      ∃ plan : Plan, plan.IsFor Beatmap.cutShort ∧ plan.Paced ∧
        ((∀ timeline ∈ converted.chart.timelines, timeline.bpm = plan.timing.bpmAt timeline.milliTime) ↔
          ∀ t point next, ¬plan.Overwrites t point next) ∧
        ((∀ timeline ∈ converted.chart.timelines, timeline.bpm = plan.timing.bpmAt timeline.milliTime) ↔
          ∀ point last, ¬plan.CutShort point last) := by
  obtain ⟨converted, h, -⟩ := exists_convert_cutShort
  obtain ⟨plan, hplan, hall, hpaced⟩ := convert_active_tempo h
  exact ⟨converted, h, plan, hplan, Plan.paced_cutShort hplan, hall, hpaced (Plan.paced_cutShort hplan)⟩

/-- At its own millisecond the second tempo point is missed. -/
theorem Beatmap.not_active_tempo_cutShort :
    ∃ converted, Beatmap.cutShort.convert ⟨"", "", ""⟩ .longNote = .ok converted ∧
      ∃ plan : Plan, plan.IsFor Beatmap.cutShort ∧
        ∃ timeline ∈ converted.chart.timelines, timeline.milliTime = 4038 ∧ timeline.bpm = 120 ∧
          (∃ point ∈ plan.timing.tempoPoints, point.time = 4038 ∧ point.bpm = 240) ∧
          timeline.bpm ≠ plan.timing.bpmAt timeline.milliTime := by
  obtain ⟨converted, h, htimelines⟩ := exists_convert_cutShort
  obtain ⟨plan, hplan, -⟩ := convert_eq_ok_iff.1 h
  have hmem : (4038, 120) ∈
      converted.chart.timelines.map fun timeline => (timeline.milliTime, timeline.bpm) := by
    rw [htimelines]
    simp
  obtain ⟨timeline, htimeline, hshown⟩ := List.mem_map.1 hmem
  obtain ⟨htime, hbpm⟩ := Prod.mk.inj hshown
  have htiming := hplan.of_timing (fun timing => decide ((∃ point ∈ timing.tempoPoints, point.time = 4038 ∧
    point.bpm = 240) ∧ timing.bpmAt 4038 ≠ 120)) (by decide +kernel)
  rw [decide_eq_true_eq] at htiming
  refine ⟨converted, h, plan, hplan, timeline, htimeline, htime, hbpm, htiming.1, ?_⟩
  rw [htime, hbpm]
  exact htiming.2.symm

end ManiaChart
