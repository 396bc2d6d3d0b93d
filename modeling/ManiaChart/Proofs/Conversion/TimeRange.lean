/-
The times of a chart are in range. Records in the 32-bit signed range
(`Beatmap.InRange`) are moved by the alignment offset, and no time that is
made of theirs leaves the moved range (`Aligned`): tempo and scroll points
stand at the whole parts of moved times, hold notes end at times that are read
within the range, and measure lines stay in their stretches.
-/
import ManiaChart.Proofs.Beatmap.Range
import ManiaChart.Proofs.Binary64.Spans
import ManiaChart.Proofs.Conversion.ActiveTempo
import ManiaChart.Proofs.Conversion.Objects
import ManiaChart.Proofs.Timing.WrittenPoints

namespace ManiaChart

/-- Whether a millisecond is one of the 32-bit signed range, moved by the
alignment offset. -/
def Aligned (t : Int) : Prop := Field.Int32 (t - Plan.alignmentOffset)

theorem aligned_iff {t : Int} : Aligned t ↔ -0x80000000 + 38 ≤ t ∧ t ≤ 0x7fffffff + 38 := by
  simp only [Aligned, Field.Int32, Field.int32Min, Field.int32Max, Plan.alignmentOffset]
  omega

theorem Aligned.near {t : Int} (h : Aligned t) : t.natAbs ≤ 2 ^ (33 : Nat) := by
  have hrange := aligned_iff.1 h
  omega

theorem aligned_add {n : Int} (h : Field.Int32 n) : Aligned (n + Plan.alignmentOffset) := by
  rwa [Aligned, Int.add_sub_cancel]

/-! ## Timing points -/

namespace Timing

theorem aligned_alignedTime {point : TimingPoint} (h : point.InRange) :
    Aligned (alignedTime Plan.alignmentOffset point) := by
  obtain ⟨hearliest, hlatest⟩ := h.time
  have hlow : Field.int32Min + Plan.alignmentOffset ≤ alignedTime Plan.alignmentOffset point :=
    Binary64.add_le_toInt64_add h.finite_time hearliest (by decide) (by decide)
  have hhigh : alignedTime Plan.alignmentOffset point ≤ Field.int32Max + Plan.alignmentOffset :=
    Binary64.toInt64_add_le_add h.finite_time hlatest (by decide) (by decide)
  exact ⟨by omega, by omega⟩

end Timing

/-! ## Hit objects -/

theorem HitObject.int32_tail {object : HitObject} {tail : Int} (h : object.tail? = some tail) :
    Field.Int32 tail := by
  obtain ⟨text, -, hread⟩ := Option.bind_eq_some_iff.1 h
  cases hinteger : Field.integer "hold tail time" text.toList with
  | error problem =>
    rw [hinteger] at hread
    cases hread
  | ok read =>
    rw [hinteger] at hread
    cases hread
    exact Field.int32_of_integer hinteger

theorem Placement.aligned_of_mem_times {keyCount : Nat} {layout : LaneLayout}
    (h : LaneLayout.ofKeyCount? keyCount = some layout) {object : HitObject} (hrange : object.InRange)
    {placement : Placement} (hobject : ofObject layout Plan.alignmentOffset object = .ok placement) {t : Int}
    (ht : t ∈ placement.times) : Aligned t := by
  obtain ⟨lane, hequal⟩ := exists_ofObject h Plan.alignmentOffset object
  rw [hequal] at hobject
  have hstart := aligned_add hrange.time
  split at hobject
  · cases hobject
    cases ht
  split at hobject
  · split at hobject
    · cases hobject
    next tail htail =>
      split at hobject
      · cases hobject
        rwa [List.mem_singleton.1 ht]
      · cases hobject
        rcases List.mem_cons.1 ht with rfl | ht
        · exact hstart
        · rw [List.mem_singleton.1 ht]
          exact aligned_add (HitObject.int32_tail htail)
  · cases hobject
    rwa [List.mem_singleton.1 ht]

/-! ## Measure lines -/

/-- No line of a stretch is outside of it, whatever its tempo and whichever way it
runs. -/
theorem Timing.within_of_drawsAt {timing : Timing} {point : TempoPoint} {stop t : Int}
    (hnear : 2 * (stop - point.time).natAbs + 1 ≤ 2 ^ (39 : Nat)) (h : timing.DrawsAt point stop t) :
    min point.time stop ≤ t ∧ t ≤ max point.time stop := by
  obtain ⟨line, hmem, rfl⟩ := h
  by_cases hlong : MarkedAtEnds point stop
  · rcases (mem_stretchLines_of_marked hlong).1 hmem with rfl | rfl
    · exact ⟨Int.min_le_left _ _, Int.le_max_left _ _⟩
    · exact ⟨Int.min_le_right _ _, Int.le_max_right _ _⟩
  · obtain ⟨k, hk, htime⟩ := exists_of_mem_stretchLines hlong hmem
    rw [MarkedAtEnds, maxMeasures_eq] at hlong
    have hwithin := Binary64.toInt64_mul_within (by decide) hnear hlong hk
    omega

theorem Timing.aligned_of_drawsAt {timing : Timing} {point : TempoPoint} {stop t : Int}
    (hpoint : Aligned point.time) (hstop : Aligned stop) (h : timing.DrawsAt point stop t) : Aligned t := by
  have hpointrange := aligned_iff.1 hpoint
  have hstoprange := aligned_iff.1 hstop
  have hwithin := within_of_drawsAt (by omega) h
  exact aligned_iff.2 ⟨by omega, by omega⟩

/-! ## Plans -/

namespace Plan

variable {plan : Plan} {beatmap : Beatmap}

theorem aligned_tempoPoints (h : plan.IsFor beatmap) (hrange : beatmap.InRange) :
    ∀ point ∈ plan.timing.tempoPoints, Aligned point.time := by
  intro point hmem
  obtain ⟨written, hwritten, -, rfl⟩ := Timing.exists_of_mem_tempoPoints h.timing hmem
  exact Timing.aligned_alignedTime (hrange.timingPoints written (Array.mem_toList_iff.1 hwritten))

/-- Tempos that are written positive are positive. -/
theorem positive_of_written (h : plan.IsFor beatmap)
    (hwritten : ∀ point ∈ beatmap.timingPoints, point.definesTempo = true → 0 < point.beatLength) :
    ∀ point ∈ plan.timing.tempoPoints, 0 < point.beatLength := by
  intro point hmem
  obtain ⟨written, hsource, hdefines, rfl⟩ := Timing.exists_of_mem_tempoPoints h.timing hmem
  exact hwritten written (Array.mem_toList_iff.1 hsource) hdefines

theorem aligned_stop (h : plan.IsFor beatmap) (hrange : beatmap.InRange) : Aligned plan.stop := by
  obtain ⟨last, hlast, hstop⟩ := Option.map_eq_some_iff.1 h.stop
  rw [← hstop]
  exact aligned_add (hrange.hitObjects last (Array.mem_of_back? hlast)).time

/-- Positive tempos are all that a plan for records in range needs to be paced. -/
theorem paced (h : plan.IsFor beatmap) (hrange : beatmap.InRange)
    (hpositive : ∀ point ∈ plan.timing.tempoPoints, 0 < point.beatLength) : plan.Paced where
  positive := hpositive
  near := fun point hmem => (aligned_tempoPoints h hrange point hmem).near

theorem aligned_of_mem_stretchesTo (h : plan.IsFor beatmap) (hrange : beatmap.InRange) {stretch : TempoPoint × Int}
    (hmem : stretch ∈ plan.timing.stretchesTo plan.stop) : Aligned stretch.1.time ∧ Aligned stretch.2 := by
  obtain ⟨hpoint, hend⟩ := Timing.mem_of_mem_stretchesTo hmem
  refine ⟨aligned_tempoPoints h hrange _ hpoint, ?_⟩
  rcases hend with hstop | ⟨next, hnext, hstop⟩
  · rw [hstop]
    exact aligned_stop h hrange
  · rw [hstop]
    exact aligned_tempoPoints h hrange next hnext

theorem aligned_of_mem_measureLines (h : plan.IsFor beatmap) (hrange : beatmap.InRange) {line : MeasureLine}
    (hline : line ∈ plan.measureLines) : Aligned line.time := by
  obtain ⟨stretch, hstretch, hline⟩ := Timing.mem_measureLines.1 hline
  obtain ⟨hpoint, hend⟩ := aligned_of_mem_stretchesTo h hrange hstretch
  exact Timing.aligned_of_drawsAt hpoint hend ⟨line, hline, rfl⟩

/-- **The times of a chart are in range** when those of its records are. -/
theorem Marks.aligned {t : Int} (hmarks : plan.Marks t) (h : plan.IsFor beatmap) (hrange : beatmap.InRange) :
    Aligned t := by
  have hsource := h.source
  cases hmarks with
  | start => exact aligned_iff.2 ⟨by decide, by decide⟩
  | video hmem | sample hmem =>
    rw [hsource] at hmem
    exact aligned_add (hrange.events _ hmem)
  | tempoPoint hmem => exact aligned_tempoPoints h hrange _ hmem
  | scrollPoint hmem =>
    obtain ⟨written, hwritten, htime⟩ := Timing.exists_of_mem_scrollPoints h.timing hmem
    rw [htime]
    exact Timing.aligned_alignedTime (hrange.timingPoints written (Array.mem_toList_iff.1 hwritten))
  | measureLine hline => exact aligned_of_mem_measureLines h hrange hline
  | hitObject hmem hobject ht =>
    rw [hsource] at hmem
    exact Placement.aligned_of_mem_times h.layout (hrange.hitObjects _ hmem) hobject ht

end Plan

end ManiaChart
