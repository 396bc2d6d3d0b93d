/-
Measure lines in order. Where all tempos are positive and the chart does not end
before one of them, the lines of each stretch ascend from its tempo point to its
end, in time and in measure position, and a stretch ends where the next one starts:
its end has the position that its measures add up to (`Timing.Forward.measureAt_end`).
So all lines are in order (`Timing.Forward.ascending`).

The time and the number of a line are rounded on their own. That no line passes the
end of its stretch is `Timing.le_stop_of_drawsAt` for the time, and for the position
that the number of a line is at most the measures of the stretch.
-/
import ManiaChart.Proofs.Timing.LastStretch
import ManiaChart.Proofs.Timing.MeasureGrowth

namespace ManiaChart

/-- Whether a line is at most as far as another one, in time and in measure
position. -/
def MeasureLine.UpTo (a b : MeasureLine) : Prop := a.time ≤ b.time ∧ a.measure ≤ b.measure

namespace Timing

/-- Whether the tempos of a timing are positive up to the end of a chart: no tempo
point is after it, and all have times of 33 binary digits. -/
structure Forward (timing : Timing) (stop : Int) : Prop where
  positive : ∀ point ∈ timing.tempoPoints, 0 < point.beatLength
  near : ∀ point ∈ timing.tempoPoints, point.time.natAbs ≤ 2 ^ (33 : Nat)
  stop_near : stop.natAbs ≤ 2 ^ (33 : Nat)
  reached : ∀ point ∈ timing.tempoPoints, point.time ≤ stop

/-- Whether a line is between two times, and its position between theirs. -/
structure Between (timing : Timing) (start stop : Int) (line : MeasureLine) : Prop where
  start_le : start ≤ line.time
  le_stop : line.time ≤ stop
  start_measure_le : timing.measureAt start ≤ line.measure
  measure_le_stop : line.measure ≤ timing.measureAt stop

/-! ## From stretch to stretch -/

section

variable {stop : Int} {points : List TempoPoint} {timing : Timing} {point : TempoPoint} {stop' : Int}

/-- A stretch ends before the next one starts, or where it does. -/
theorem stretchesOf_apart (hascending : points.Pairwise fun a b => a.time < b.time) :
    (stretchesOf stop points).Pairwise fun a b => a.2 ≤ b.1.time := by
  induction points with
  | nil => exact .nil
  | cons point later ih =>
    have hlater := (List.pairwise_cons.1 hascending).2
    refine List.pairwise_cons.2 ⟨fun next hnext => ?_, ih hlater⟩
    have hmem : next.1 ∈ later := by
      rw [← map_fst_stretchesOf stop later]
      exact List.mem_map_of_mem hnext
    cases later with
    | nil => cases hmem
    | cons second rest =>
      rcases List.mem_cons.1 hmem with heq | hrest
      · exact Int.le_of_eq (congrArg TempoPoint.time heq.symm)
      · exact Int.le_of_lt ((List.pairwise_cons.1 hlater).1 next.1 hrest)

theorem exists_stretch (h : (point, stop') ∈ timing.stretchesTo stop) :
    ∃ earlier stretch later, timing.stretches.toList = earlier ++ stretch :: later ∧ stretch.point = point ∧
      stop' = endBefore stop (later.map TempoStretch.point) := by
  rw [stretchesTo_eq] at h
  obtain ⟨before, after, hsplit⟩ := List.append_of_mem h
  obtain ⟨front, back, hpoints, hend, -⟩ := split_of_stretchesOf hsplit
  obtain ⟨earlier, others, hstretches, -, hothers⟩ := List.map_eq_append_iff.1 hpoints
  obtain ⟨stretch, later, rfl, hpoint, rfl⟩ := List.map_eq_cons_iff.1 hothers
  exact ⟨earlier, stretch, later, hstretches, hpoint, hend⟩

end

/-! ## Within a stretch -/

namespace Forward

variable {offset : Int} {points : List TimingPoint} {timing : Timing} {skipped : List Int} {stop : Int}
  {point : TempoPoint} {stop' : Int}

theorem near_tempoPoints (hforward : timing.Forward stop) {t : Int} (ht : t.natAbs ≤ 2 ^ (33 : Nat)) :
    Near timing.tempoPoints t := by
  intro point hmem
  have hnear := hforward.near point hmem
  omega

theorem pos (hforward : timing.Forward stop) (hmem : (point, stop') ∈ timing.stretchesTo stop) :
    0 < point.measureLength :=
  measureLength_pos (hforward.positive point (mem_of_mem_stretchesTo hmem).1)

theorem near_ends (hforward : timing.Forward stop) (hmem : (point, stop') ∈ timing.stretchesTo stop) :
    point.time.natAbs ≤ 2 ^ (33 : Nat) ∧ stop'.natAbs ≤ 2 ^ (33 : Nat) := by
  obtain ⟨hpoint, hend⟩ := mem_of_mem_stretchesTo hmem
  refine ⟨hforward.near point hpoint, ?_⟩
  rcases hend with rfl | ⟨next, hnext, rfl⟩
  · exact hforward.stop_near
  · exact hforward.near next hnext

/-- No stretch ends before its tempo point. -/
theorem le_end (hforward : timing.Forward stop) (hmem : (point, stop') ∈ timing.stretchesTo stop) :
    point.time ≤ stop' := by
  obtain ⟨earlier, stretch, later, hsplit, rfl, rfl⟩ := exists_stretch hmem
  cases later with
  | nil => exact hforward.reached _ (mem_of_mem_stretchesTo hmem).1
  | cons next rest => exact Int.le_of_lt (lt_of_mem_later_stretches hsplit next List.mem_cons_self)

/-- **The end of a stretch** is at the position that its measures add up to. -/
theorem measureAt_end (h : ofPoints? offset points = some (timing, skipped)) (hforward : timing.Forward stop)
    (hmem : (point, stop') ∈ timing.stretchesTo stop) :
    timing.measureAt stop' = timing.measureAt point.time + point.measuresTo stop' := by
  have hle := hforward.le_end hmem
  obtain ⟨earlier, stretch, later, hsplit, rfl, rfl⟩ := exists_stretch hmem
  rw [measureAt_start h hsplit]
  cases later with
  | nil => exact measureAt_stretch hsplit hle fun next hnext => by cases hnext
  | cons next rest => exact measureAt_next h hsplit

theorem measureAt_nonneg (h : ofPoints? offset points = some (timing, skipped)) (hforward : timing.Forward stop)
    (hmem : point ∈ timing.tempoPoints) : 0 ≤ timing.measureAt point.time := by
  rw [(chained_of_ofPoints? h).measureAt_eq_walk]
  refine start_le_walk (gathered_tempoPoints h) Binary64.zero_le_zero
    (hforward.near_tempoPoints (hforward.near point hmem)) fun first hfirst => ?_
  obtain ⟨later, hpoints⟩ := List.head?_eq_some_iff.1 hfirst
  have hlater := (List.pairwise_cons.1 (hpoints ▸ timing.tempoPoints_ascending)).1
  rcases List.mem_cons.1 (hpoints ▸ hmem) with rfl | hmem
  · exact Int.le_refl _
  · exact Int.le_of_lt (hlater point hmem)

/-- The lines of a stretch lie in it, in time and in position. -/
theorem between (h : ofPoints? offset points = some (timing, skipped)) (hforward : timing.Forward stop)
    (hmem : (point, stop') ∈ timing.stretchesTo stop) {line : MeasureLine}
    (hline : line ∈ timing.stretchLines point stop') : timing.Between point.time stop' line := by
  have hpos := hforward.pos hmem
  have hle := hforward.le_end hmem
  obtain ⟨hpoint, hstop⟩ := hforward.near_ends hmem
  have hdraws : timing.DrawsAt point stop' line.time := ⟨line, hline, rfl⟩
  have hfirst : point.time ≤ line.time := time_le_of_drawsAt hpos hle hdraws
  have hlast : line.time ≤ stop' := le_stop_of_drawsAt hpos hle (by omega) hdraws
  by_cases hlong : MarkedAtEnds point stop'
  · -- A line at an end has the position of its millisecond.
    have hmeasure : line.measure = timing.measureAt line.time :=
      congrArg MeasureLine.measure (eq_lineAt_of_marked hlong hline)
    have hnear : Near timing.tempoPoints line.time := hforward.near_tempoPoints (by omega)
    refine ⟨hfirst, hlast, ?_, ?_⟩
    · rw [hmeasure]
      exact measureAt_mono h (hforward.near_tempoPoints hpoint) hnear hfirst
    · rw [hmeasure]
      exact measureAt_mono h hnear (hforward.near_tempoPoints hstop) hlast
  · obtain ⟨k, hk, rfl⟩ := exists_lineAfter_of_mem_stretchLines hlong hline
    have hstart := hforward.measureAt_nonneg h (mem_of_mem_stretchesTo hmem).1
    have hnumber : 0 ≤ Binary64.ofInt k := Binary64.ofInt_le_ofInt (Int.natCast_nonneg k)
    refine ⟨hfirst, hlast, Binary64.le_add hstart hnumber, ?_⟩
    rw [hforward.measureAt_end h hmem]
    exact Binary64.add_le_add_left hstart hnumber (number_le_measuresTo hpos hlong hle (by omega) hk)

theorem upTo_lineAfter (hstart : 0 ≤ timing.measureAt point.time) (hpos : 0 < point.measureLength) {k k' : Nat}
    (hk : k ≤ k') (hk' : k' ≤ 2 ^ (53 : Nat)) :
    (timing.lineAfter (timing.startLine point) point.measureLength k).UpTo
      (timing.lineAfter (timing.startLine point) point.measureLength k') :=
  ⟨Int.add_le_add_left (Binary64.toInt64_mul_mono hpos hk' hk) _,
    Binary64.add_le_add_left hstart (Binary64.ofInt_le_ofInt (Int.natCast_nonneg k))
      (Binary64.ofInt_le_ofInt (Int.ofNat_le.2 hk))⟩

/-- **Within a stretch** the lines ascend. -/
theorem ascending_stretchLines (h : ofPoints? offset points = some (timing, skipped)) (hforward : timing.Forward stop)
    (hmem : (point, stop') ∈ timing.stretchesTo stop) :
    (timing.stretchLines point stop').Pairwise MeasureLine.UpTo := by
  by_cases hlong : MarkedAtEnds point stop'
  · rw [stretchLines_of_marked hlong]
    have hlast : timing.Between point.time stop' (timing.lineAt stop') :=
      hforward.between h hmem ((mem_stretchLines_of_marked hlong).2 (.inr rfl))
    exact List.pairwise_pair.2 ⟨hlast.start_le, hlast.start_measure_le⟩
  · rw [stretchLines_of_short hlong, List.pairwise_map]
    refine List.pairwise_lt_range.imp_of_mem fun {k k'} _ hk' hlt => ?_
    have hbound : k' ≤ 10000 := le_maxMeasures hlong (by
      rw [List.mem_range, TempoPoint.wholeMeasuresTo] at hk'
      omega)
    exact upTo_lineAfter (hforward.measureAt_nonneg h (mem_of_mem_stretchesTo hmem).1) (hforward.pos hmem)
      (Nat.le_of_lt hlt) (by omega)

/-- **All measure lines** ascend. -/
theorem ascending (h : ofPoints? offset points = some (timing, skipped)) (hforward : timing.Forward stop) :
    (timing.measureLines stop).Pairwise MeasureLine.UpTo := by
  have hapart : (timing.stretchesTo stop).Pairwise fun a b => a.2 ≤ b.1.time := by
    rw [stretchesTo_eq]
    exact stretchesOf_apart timing.tempoPoints_ascending
  refine List.pairwise_flatMap.2 ⟨fun stretch hmem => hforward.ascending_stretchLines h hmem,
    hapart.imp_of_mem fun {a b} ha hb hle line hline line' hline' => ?_⟩
  have hfirst := hforward.between h ha hline
  have hsecond := hforward.between h hb hline'
  have hmono : timing.measureAt a.2 ≤ timing.measureAt b.1.time :=
    measureAt_mono h (hforward.near_tempoPoints (hforward.near_ends ha).2)
      (hforward.near_tempoPoints (hforward.near_ends hb).1) hle
  exact ⟨Int.le_trans hfirst.le_stop (Int.le_trans hle hsecond.start_le),
    Binary64.le_trans hfirst.measure_le_stop (Binary64.le_trans hmono hsecond.start_measure_le)⟩

/-- A stretch has a line at its tempo point, the first one. -/
theorem exists_startLine (hforward : timing.Forward stop) (hmem : (point, stop') ∈ timing.stretchesTo stop) :
    ∃ more, timing.stretchLines point stop' = timing.startLine point :: more := by
  have hpoint := (mem_of_mem_stretchesTo hmem).1
  have hnonneg : 0 ≤ point.wholeMeasuresTo stop' := measures_nonneg (hforward.pos hmem) (hforward.le_end hmem)
  rcases Int.lt_or_eq_of_le hnonneg with hsome | hnone
  · obtain ⟨next, more, hlines, -⟩ := stretchLines_of_pos hpoint hsome
    exact ⟨next :: more, hlines⟩
  · exact ⟨[], stretchLines_of_zero hpoint hnone.symm⟩

end Forward

theorem measure_of_getElem? {timing : Timing} {point : TempoPoint} {stop : Int} (hshort : ¬MarkedAtEnds point stop)
    {k : Nat} {line : MeasureLine} (h : (timing.stretchLines point stop)[k]? = some line) :
    line.measure = timing.measureAt point.time + Binary64.ofInt k := by
  rw [stretchLines_of_short hshort, List.getElem?_map, Option.map_eq_some_iff] at h
  obtain ⟨number, hnumber, rfl⟩ := h
  obtain ⟨-, rfl⟩ := List.getElem?_eq_some_iff.1 hnumber
  rw [List.getElem_range]
  rfl

/-- **Measure lines are in order** where all tempos are positive and the chart does
not end before one of them: from a line to a later one neither the time nor the
measure position falls. The lines of a stretch lie in it, with the scroll speed that
is active there; the first one is at the tempo point and its position, and unless the
stretch is marked at its ends, the others are numbered on from there. -/
theorem measureLines_ascending {offset : Int} {points : List TimingPoint} {timing : Timing} {skipped : List Int}
    {stop : Int} (h : ofPoints? offset points = some (timing, skipped)) (hforward : timing.Forward stop) :
    (timing.measureLines stop).Pairwise MeasureLine.UpTo ∧
      ∀ point stop', (point, stop') ∈ timing.stretchesTo stop →
        (∀ line ∈ timing.stretchLines point stop',
          point.time ≤ line.time ∧ line.time ≤ stop' ∧ line.scroll = timing.scrollAt line.time) ∧
        (∃ first more, timing.stretchLines point stop' = first :: more ∧
          first.time = point.time ∧ first.measure = timing.measureAt point.time) ∧
        (¬MarkedAtEnds point stop' → ∀ (k : Nat) line, (timing.stretchLines point stop')[k]? = some line →
          line.measure = timing.measureAt point.time + Binary64.ofInt k) := by
  refine ⟨hforward.ascending h, fun point stop' hmem => ⟨fun line hline => ?_, ?_, ?_⟩⟩
  · have hbetween := hforward.between h hmem hline
    exact ⟨hbetween.start_le, hbetween.le_stop, scroll_of_mem_stretchLines hline⟩
  · obtain ⟨more, hlines⟩ := hforward.exists_startLine hmem
    exact ⟨timing.startLine point, more, hlines, rfl, rfl⟩
  · intro hshort k line hline
    exact measure_of_getElem? hshort hline

/-- Measures of a fraction of a second, then several to a millisecond, then too many
for lines of their own, and one that the end of the chart cuts short. -/
def quick : List TimingPoint :=
  [{ time := 0, beatLength := 333 / 10 }, { time := 400, beatLength := 1 / 10 },
    { time := 404, beatLength := 1 / 10000 }, { time := 410, beatLength := 500 }]

/-- Its measure lines up to 450 ms, with the whole parts of their positions. -/
def quickLines : List (Int × Int) :=
  [(0, 0), (133, 1), (266, 2), (399, 3), (400, 3), (400, 4), (400, 5), (401, 6), (401, 7), (402, 8), (402, 9),
    (402, 10), (403, 11), (403, 12), (404, 13), (404, 13), (410, 15013), (410, 15013)]

theorem measureLines_ascending_quick :
    ∃ timing skipped,
      ofPoints? 0 quick = some (timing, skipped) ∧ timing.Forward 450 ∧
      (timing.measureLines 450).map (fun line => (line.time, line.measure.toInt64)) = quickLines ∧
      (timing.measureLines 450).Pairwise MeasureLine.UpTo ∧
      ∀ (k : Nat) line, (timing.stretchLines ⟨0, 333 / 10⟩ 400)[k]? = some line →
        line.measure = 0 + Binary64.ofInt k := by
  have hmade : (ofPoints? 0 quick).any (fun made => decide (
      made.1.tempoPoints = [⟨0, 333 / 10⟩, ⟨400, 1 / 10⟩, ⟨404, 1 / 10000⟩, ⟨410, 500⟩] ∧
      (made.1.measureLines 450).map (fun line => (line.time, line.measure.toInt64)) = quickLines)) = true := by
    decide +kernel
  obtain ⟨⟨timing, skipped⟩, hmade, hchecks⟩ := (Option.any_eq_true ..).1 hmade
  obtain ⟨hpoints, hlines⟩ := of_decide_eq_true hchecks
  have hforward : timing.Forward 450 :=
    ⟨by rw [hpoints]; decide +kernel, by rw [hpoints]; decide, by decide, by rw [hpoints]; decide⟩
  obtain ⟨hascending, hstretches⟩ := measureLines_ascending hmade hforward
  have hmem : (⟨0, 333 / 10⟩, 400) ∈ timing.stretchesTo 450 := by
    rw [stretchesTo_eq, hpoints]
    exact List.mem_cons_self
  have hshort : ¬MarkedAtEnds ⟨0, 333 / 10⟩ 400 := by
    rw [MarkedAtEnds]
    decide +kernel
  have hzero : timing.measureAt 0 = 0 := measureAt_first hmade (by rw [hpoints, List.head?_cons])
  refine ⟨timing, skipped, hmade, hforward, hlines, hascending, fun k line hline => ?_⟩
  rw [← hzero]
  exact (hstretches _ _ hmem).2.2 hshort k line hline

end Timing

end ManiaChart
