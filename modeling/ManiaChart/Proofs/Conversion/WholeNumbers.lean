/-
Whole numbers in a conversion fit into 64 bits. Conversions are told here with
whole numbers of any size; `Plan.Computes` lists every sum, difference and product
of whole numbers that one takes, and none of a beatmap read from a source leaves
the 64-bit signed range (`Plan.Computes.fits`).

What keeps them small is the range of the records: times and places have 32 binary
digits, so that what is made of two of them, or of one and a small factor, has far
less than 64.
-/
import ManiaChart.Proofs.Conversion.TimeRange

namespace ManiaChart

/-- Whether a whole number fits the 64-bit signed range. -/
def FitsInt64 (n : Int) : Prop := -0x8000000000000000 ≤ n ∧ n ≤ 0x7fffffffffffffff

namespace Plan

variable {plan : Plan} {beatmap : Beatmap}

/-- The results of whole-number arithmetic in the conversion of a plan. -/
inductive Computes (plan : Plan) : Int → Prop
  /-- The start of an event, aligned. -/
  | event {event : Event} :
      event ∈ plan.beatmap.events → Computes plan (event.startTime + alignmentOffset)
  /-- The time of a hit object, aligned; the last one ends the last measure. -/
  | object {object : HitObject} :
      object ∈ plan.beatmap.hitObjects → Computes plan (object.time + alignmentOffset)
  /-- The tail of a hold note, aligned. -/
  | tail {object : HitObject} {tail : Int} :
      object ∈ plan.beatmap.hitObjects → object.tail? = some tail → Computes plan (tail + alignmentOffset)
  /-- The product that picks the column of a hit object. -/
  | place {object : HitObject} :
      object ∈ plan.beatmap.hitObjects → Computes plan (object.x * plan.layout.keyCount)
  /-- The length of a stretch, negative when the chart ends before it starts. -/
  | span {stretch : TempoPoint × Int} :
      stretch ∈ plan.timing.stretchesTo plan.stop → Computes plan (stretch.2 - stretch.1.time)
  /-- The time of the line `k` measures after the first one of a stretch. -/
  | line {stretch : TempoPoint × Int} {k : Nat} :
      stretch ∈ plan.timing.stretchesTo plan.stop → ¬Timing.MarkedAtEnds stretch.1 stretch.2 →
      k ≤ (Binary64.ofInt (stretch.2 - stretch.1.time) / stretch.1.measureLength).toInt64 →
      Computes plan (stretch.1.time + (Binary64.ofInt k * stretch.1.measureLength).toInt64)
  /-- The time passed since a tempo point, where a position is looked up: at the
  timelines, which tempo points and the ends of long stretches are among. -/
  | elapsed {point : TempoPoint} {t : Int} :
      point ∈ plan.timing.tempoPoints → plan.Marks t → Computes plan (t - point.time)
  /-- A millisecond in microseconds. -/
  | microTime {t : Int} : plan.Marks t → Computes plan (t * 1000)

theorem aligned_line (h : plan.IsFor beatmap) (hrange : beatmap.InRange) {stretch : TempoPoint × Int} {k : Nat}
    (hmem : stretch ∈ plan.timing.stretchesTo plan.stop) (hshort : ¬Timing.MarkedAtEnds stretch.1 stretch.2)
    (hk : k ≤ (Binary64.ofInt (stretch.2 - stretch.1.time) / stretch.1.measureLength).toInt64) :
    Aligned (stretch.1.time + (Binary64.ofInt k * stretch.1.measureLength).toInt64) := by
  obtain ⟨hpoint, hend⟩ := aligned_of_mem_stretchesTo h hrange hmem
  have hline : plan.timing.lineAfter _ _ k ∈ plan.timing.stretchLines stretch.1 stretch.2 :=
    Timing.lineAfter_mem_stretchLines hshort hk
  exact Timing.aligned_of_drawsAt hpoint hend ⟨_, hline, rfl⟩

/-- **No whole number of a conversion overflows** when the records are in range. -/
theorem Computes.fits {n : Int} (hn : plan.Computes n) (h : plan.IsFor beatmap) (hrange : beatmap.InRange) :
    FitsInt64 n := by
  have hsource := h.source
  have haligned : ∀ {t : Int}, Aligned t → FitsInt64 t := fun {t} ht => by
    have hbounds := aligned_iff.1 ht
    exact ⟨by omega, by omega⟩
  cases hn with
  | event hmem =>
    rw [hsource] at hmem
    exact haligned (aligned_add (hrange.events _ hmem))
  | object hmem =>
    rw [hsource] at hmem
    exact haligned (aligned_add (hrange.hitObjects _ hmem).time)
  | tail _ htail => exact haligned (aligned_add (HitObject.int32_tail htail))
  | @place object hmem =>
    rw [hsource] at hmem
    have hx := (hrange.hitObjects _ hmem).x
    have hcount : (plan.layout.keyCount : Int) ≤ 16 := Int.ofNat_le.2 (LaneLayout.keyCount_le h.layout)
    simp only [Field.Int32, Field.int32Min, Field.int32Max] at hx
    have hlow := Int.mul_le_mul_of_nonneg_right hx.1 (Int.natCast_nonneg plan.layout.keyCount)
    have hhigh := Int.mul_le_mul_of_nonneg_right hx.2 (Int.natCast_nonneg plan.layout.keyCount)
    exact ⟨by omega, by omega⟩
  | span hmem =>
    obtain ⟨hpoint, hend⟩ := aligned_of_mem_stretchesTo h hrange hmem
    have hpointrange := aligned_iff.1 hpoint
    have hendrange := aligned_iff.1 hend
    exact ⟨by omega, by omega⟩
  | line hmem hshort hk => exact haligned (aligned_line h hrange hmem hshort hk)
  | elapsed hpoint ht =>
    have hpointrange := aligned_iff.1 (aligned_tempoPoints h hrange _ hpoint)
    have htrange := aligned_iff.1 (ht.aligned h hrange)
    exact ⟨by omega, by omega⟩
  | microTime ht =>
    have htrange := aligned_iff.1 (ht.aligned h hrange)
    exact ⟨by omega, by omega⟩

end Plan

/-- **No text overflows.** Whatever the source of a beatmap, its records are in
range; and when it can be converted, its timelines and the tails of its hold notes
are in the range moved by the alignment offset, and no whole number of the
conversion leaves 64 bits, so that each timeline stands at the exact microsecond. -/
theorem Beatmap.convert_inRange (source : String) :
    (read source).beatmap.InRange ∧
      ∀ (identity : Chart.Identity) (rule : LongNoteRule) (converted : Converted),
        (read source).beatmap.convert identity rule = .ok converted →
          (∀ timeline ∈ converted.chart.timelines,
            Aligned timeline.milliTime ∧ timeline.microTime = timeline.milliTime * 1000) ∧
          (∀ object ∈ (read source).beatmap.hitObjects, ∀ tail ∈ object.tail?,
            Aligned (tail + Plan.alignmentOffset)) ∧
          ∃ plan : Plan, plan.IsFor (read source).beatmap ∧ ∀ n, plan.Computes n → FitsInt64 n := by
  have hrange := inRange_read source
  refine ⟨hrange, fun identity rule converted h => ?_⟩
  obtain ⟨plan, hplan, rfl⟩ := convert_eq_ok_iff.1 h
  refine ⟨fun timeline hmem => ⟨?_, ?_⟩, ?_, plan, hplan, fun n hn => hn.fits hplan hrange⟩
  · have hmarks := (Plan.exists_timeline_iff hplan).1 ⟨timeline, hmem, rfl⟩
    exact hmarks.aligned hplan hrange
  · exact (Plan.shows_of_mem_timelines hplan hmem).microTime
  · intro object _ tail htail
    exact aligned_add (HitObject.int32_tail htail)

/-- A source at both ends of the range, with tempos that are tiny, zero and
negative, and a last hit object at the start. -/
def Beatmap.farthest : String :=
  "[General]\nMode:3\n[Difficulty]\nCircleSize:4\n[TimingPoints]\n-2147483648,1e-9\n0,0\n2147483647,-5e8\n" ++
    "[HitObjects]\n0,0,0,128,0,2147483647\n0,0,-2147483648,1\n"

/-- The milliseconds of its chart, from one end of the moved range to the other. -/
def Beatmap.farthestTimes : List Int := [-2147483610, -1852516315, 0, 38, 147483685, 2147483685]

theorem Beatmap.convert_inRange_farthest :
    (read farthest).beatmap.InRange ∧
      ∃ converted, (read farthest).beatmap.convert ⟨"", "", ""⟩ .longNote = .ok converted ∧
        converted.chart.timelines.map Timeline.milliTime = farthestTimes ∧
        (∀ timeline ∈ converted.chart.timelines,
          Aligned timeline.milliTime ∧ timeline.microTime = timeline.milliTime * 1000) ∧
        (∀ object ∈ (read farthest).beatmap.hitObjects, ∀ tail ∈ object.tail?,
          Aligned (tail + Plan.alignmentOffset)) ∧
        ∃ plan : Plan, plan.IsFor (read farthest).beatmap ∧ ∀ n, plan.Computes n → FitsInt64 n := by
  obtain ⟨hrange, hconvert⟩ := convert_inRange farthest
  obtain ⟨converted, h, htimes⟩ := exists_convert (read farthest).beatmap ⟨"", "", ""⟩ .longNote
    (fun converted => converted.chart.timelines.map Timeline.milliTime = farthestTimes) (by decide +kernel)
  obtain ⟨htimelines, htails, hplan⟩ := hconvert _ _ _ h
  exact ⟨hrange, converted, h, of_decide_eq_true htimes, htimelines, htails, hplan⟩

end ManiaChart
