/-
Measure positions in a converted chart never run backwards.

The position of a timeline is that of the last measure line at its millisecond
or else the exact one; both are counted from the first tempo point
(`Plan.countedFrom_of_mem_timelines`), and what is counted so keeps the order of
the milliseconds (`Timing.CountedFrom.le`).
-/
import ManiaChart.Proofs.Conversion.TimeRange
import ManiaChart.Proofs.Timing.MeasureOrder

namespace ManiaChart

namespace Plan

variable {plan : Plan} {beatmap : Beatmap}

theorem Paced.tempoPoints (h : plan.Paced) : ∀ point ∈ plan.timing.tempoPoints, point.Paced :=
  fun point hmem => ⟨Timing.measureLength_pos (h.positive point hmem), h.near point hmem⟩

theorem countedFrom_of_mem_timelines (h : plan.IsFor beatmap)
    (hpaced : ∀ point ∈ plan.timing.tempoPoints, point.Paced) {identity : Chart.Identity} {rule : LongNoteRule}
    {timeline : Timeline} (hmem : timeline ∈ (plan.chart identity rule).timelines)
    (hnear : timeline.milliTime.natAbs ≤ 2 ^ (33 : Nat)) :
    Timing.CountedFrom 0 plan.timing.tempoPoints timeline.milliTime timeline.measure := by
  have hchained := Timing.chained_of_ofPoints? h.timing
  obtain ⟨t, -, rfl⟩ := mem_timelines.1 hmem
  rw [(shows_draft h rule t).milliTime] at hnear ⊢
  have hline := line_draft h rule t
  cases hlast : plan.lastLine? t with
  | none =>
    rw [hlast] at hline
    have hmeasure : ((plan.draft rule).timelineAt t).measure = plan.timing.measureAt t := congrArg Prod.snd hline
    rw [hmeasure]
    exact hchained.countedFrom_measureAt hpaced hnear
  | some line =>
    rw [hlast] at hline
    have hmeasure : ((plan.draft rule).timelineAt t).measure = line.measure := congrArg Prod.snd hline
    obtain ⟨hdrawn, rfl⟩ := mem_of_lastLine? hlast
    rw [hmeasure]
    exact hchained.countedFrom_of_mem_measureLines hpaced hnear hdrawn

/-- From timeline to timeline the measure position does not fall. -/
theorem measures_ascending (h : plan.IsFor beatmap) (hrange : beatmap.InRange)
    (hpositive : ∀ point ∈ plan.timing.tempoPoints, 0 < point.beatLength) (identity : Chart.Identity)
    (rule : LongNoteRule) :
    (plan.chart identity rule).timelines.Pairwise fun a b => a.milliTime < b.milliTime ∧ a.measure ≤ b.measure := by
  have hpaced := (paced h hrange hpositive).tempoPoints
  have hnear : ∀ timeline ∈ (plan.chart identity rule).timelines, timeline.milliTime.natAbs ≤ 2 ^ (33 : Nat) := by
    intro timeline hmem
    have hmarks := (exists_timeline_iff h).1 ⟨timeline, hmem, rfl⟩
    exact (hmarks.aligned h hrange).near
  refine (timelines_ascending h identity rule).imp_of_mem fun {a b} ha hb hlt => ⟨hlt, ?_⟩
  exact (countedFrom_of_mem_timelines h hpaced ha (hnear a ha)).le
    (countedFrom_of_mem_timelines h hpaced hb (hnear b hb)) hlt Binary64.zero_le_zero (.inl rfl) hpaced
    plan.timing.tempoPoints_ascending (hnear a ha) (hnear b hb)

end Plan

/-- **Measure positions never run backwards.** Whatever the source of a beatmap,
when all its tempos are positive, the timelines of the converted chart ascend in
time, and from one to a later one the measure position does not fall. Of tempos
at one millisecond only the last one has to be positive. -/
theorem Beatmap.convert_measures_ascending {source : String} {identity : Chart.Identity} {rule : LongNoteRule}
    {converted : Converted} (h : (read source).beatmap.convert identity rule = .ok converted) :
    ∃ plan : Plan, plan.IsFor (read source).beatmap ∧
      ((∀ point ∈ (read source).beatmap.timingPoints, point.definesTempo = true → 0 < point.beatLength) →
        ∀ point ∈ plan.timing.tempoPoints, 0 < point.beatLength) ∧
      ((∀ point ∈ plan.timing.tempoPoints, 0 < point.beatLength) →
        converted.chart.timelines.Pairwise fun a b => a.milliTime < b.milliTime ∧ a.measure ≤ b.measure) := by
  obtain ⟨plan, hplan, rfl⟩ := convert_eq_ok_iff.1 h
  exact ⟨plan, hplan, Plan.positive_of_written hplan,
    fun hpositive => Plan.measures_ascending hplan (inRange_read source) hpositive identity rule⟩

/-- A source with short measures: several to a millisecond, then too many for
lines of their own, and a last tempo point past the last hit object. -/
def Beatmap.shortMeasures : String :=
  "[General]\nMode: 3\n[Difficulty]\nCircleSize: 7\n[TimingPoints]\n0,33.3\n400,0.1\n404,0.0001\n410,500\n" ++
    "[HitObjects]\n36,192,300,1,0\n36,192,450,1,0\n36,192,200,1,0\n"

/-- The milliseconds of its chart, with the whole parts of their positions. -/
def Beatmap.shortMeasurePositions : List (Int × Int) :=
  [(0, 0), (38, 0), (171, 1), (238, 1), (304, 2), (338, 2), (437, 3), (438, 5), (439, 7), (440, 10), (441, 12),
    (442, 13), (448, 15013), (488, 15013)]

theorem Beatmap.convert_measures_ascending_short :
    ∃ converted, (read shortMeasures).beatmap.convert ⟨"", "", ""⟩ .longNote = .ok converted ∧
      converted.chart.timelines.map (fun timeline => (timeline.milliTime, timeline.measure.toInt64)) =
        shortMeasurePositions ∧
      ∃ plan : Plan, plan.IsFor (read shortMeasures).beatmap ∧
        (∀ point ∈ plan.timing.tempoPoints, 0 < point.beatLength) ∧
        converted.chart.timelines.Pairwise fun a b => a.milliTime < b.milliTime ∧ a.measure ≤ b.measure := by
  obtain ⟨converted, h, htimelines⟩ := exists_convert (read shortMeasures).beatmap ⟨"", "", ""⟩ .longNote
    (fun converted => converted.chart.timelines.map (fun timeline => (timeline.milliTime, timeline.measure.toInt64)) =
      shortMeasurePositions)
    (by decide +kernel)
  obtain ⟨plan, hplan, hwritten, hascending⟩ := convert_measures_ascending h
  have hpositive := hwritten (by decide +kernel)
  exact ⟨converted, h, of_decide_eq_true htimelines, plan, hplan, hpositive, hascending hpositive⟩

end ManiaChart
