/-
The stretch of the last tempo point where the chart ends before it. It has its
one line, at the tempo point, just when no measure of its tempo, forwards or
backwards, fits between the end of the chart and the tempo point
(`TempoPoint.wholeMeasuresTo_eq_zero_iff`, which rests on quotients of less than
one not being rounded up).

Where a measure fits there is no line at all; but a negative tempo, whose
measures run backwards, draws lines from the tempo point back to the end.
-/
import ManiaChart.Proofs.Binary64.Quotients
import ManiaChart.Proofs.Timing.MeasurePosition

namespace ManiaChart

namespace TempoPoint

/-- Whether a measure of a tempo, forwards or backwards, fits into a span of
milliseconds. -/
def MeasureWithin (point : TempoPoint) (span : Int) : Prop :=
  point.measureLength ≤ Binary64.ofInt span ∧ -point.measureLength ≤ Binary64.ofInt span

instance (point : TempoPoint) (span : Int) : Decidable (point.MeasureWithin span) :=
  inferInstanceAs (Decidable (_ ∧ _))

/-- The whole measures from a tempo point to a time, negative for an earlier one,
a fraction dropped toward zero. -/
def wholeMeasuresTo (point : TempoPoint) (t : Int) : Int :=
  (Binary64.ofInt (t - point.time) / point.measureLength).toInt64

/-- Measures have the sign of beats. -/
theorem signed_measureLength {point : TempoPoint} {s : Bool} (h : Binary64.Signed s point.beatLength) :
    Binary64.Signed s point.measureLength := by
  have hsigned : Binary64.Signed (s ^^ false) point.measureLength := h.mul (Binary64.signed_ofNat 4)
  rwa [Bool.xor_false] at hsigned

section

variable {point : TempoPoint} {t : Int}

/-- To an earlier time, forward measures are none or of negative number. -/
theorem wholeMeasuresTo_forward (hlt : t < point.time) (hspan : point.time - t ≤ 2 ^ (64 : Nat))
    (hsign : Binary64.Signed false point.measureLength) :
    point.wholeMeasuresTo t ≤ 0 ∧
      (point.wholeMeasuresTo t = 0 ↔ ¬point.measureLength ≤ Binary64.ofInt (point.time - t)) := by
  obtain ⟨n, hn⟩ := Int.eq_ofNat_of_zero_le (show 0 ≤ point.time - t by omega)
  have hback : t - point.time = -n := by omega
  have hquotient := (Binary64.signed_ofNat n).div hsign
  rw [wholeMeasuresTo, hback, hn, Binary64.ofInt_neg (by omega), Binary64.neg_div]
  refine ⟨hquotient.neg.toInt64_nonpos, ?_⟩
  rw [Binary64.toInt64_neg_eq_zero_iff]
  exact Binary64.toInt64_div_eq_zero_iff (Binary64.ofNat_pos (by omega)) (Binary64.isFinite_ofInt (by omega)) hsign

/-- To an earlier time, backward measures are none or of positive number. -/
theorem wholeMeasuresTo_backward (hlt : t < point.time) (hspan : point.time - t ≤ 2 ^ (64 : Nat))
    (hsign : Binary64.Signed true point.measureLength) :
    0 ≤ point.wholeMeasuresTo t ∧
      (point.wholeMeasuresTo t = 0 ↔ ¬-point.measureLength ≤ Binary64.ofInt (point.time - t)) := by
  obtain ⟨n, hn⟩ := Int.eq_ofNat_of_zero_le (show 0 ≤ point.time - t by omega)
  have hback : t - point.time = -n := by omega
  have hmirror : Binary64.Signed false (-point.measureLength) := hsign.neg
  have hquotient : Binary64.Signed (false ^^ false) (Binary64.ofInt n / -point.measureLength) :=
    (Binary64.signed_ofNat n).div hmirror
  rw [wholeMeasuresTo, hback, hn, Binary64.ofInt_neg (by omega), ← Binary64.neg_neg point.measureLength,
    Binary64.neg_div_neg, Binary64.neg_neg]
  refine ⟨Binary64.Signed.toInt64_nonneg hquotient, ?_⟩
  exact Binary64.toInt64_div_eq_zero_iff (Binary64.ofNat_pos (by omega)) (Binary64.isFinite_ofInt (by omega)) hmirror

/-- To an earlier time there are no whole measures just when none fits into the
span. -/
theorem wholeMeasuresTo_eq_zero_iff (hlt : t < point.time) (hspan : point.time - t ≤ 2 ^ (64 : Nat)) :
    point.wholeMeasuresTo t = 0 ↔ ¬point.MeasureWithin (point.time - t) := by
  obtain ⟨n, hn⟩ := Int.eq_ofNat_of_zero_le (show 0 ≤ point.time - t by omega)
  have hpos : 0 < Binary64.ofInt (point.time - t) := hn ▸ Binary64.ofNat_pos (by omega)
  obtain ⟨s, hsign⟩ := Binary64.exists_signed point.measureLength
  cases s with
  | false =>
    rw [(wholeMeasuresTo_forward hlt hspan hsign).2, MeasureWithin,
      and_iff_left_of_imp (Binary64.neg_le_of_le hpos hsign)]
  | true =>
    have hmirror : Binary64.Signed false (-point.measureLength) := hsign.neg
    have hback := Binary64.neg_le_of_le hpos hmirror
    rw [Binary64.neg_neg] at hback
    rw [(wholeMeasuresTo_backward hlt hspan hsign).2, MeasureWithin, and_iff_right_of_imp hback]

theorem toInt64_measure_neg (h : point.measureLength ≤ -1) :
    (Binary64.ofInt (1 : Nat) * point.measureLength).toInt64 < 0 := by
  have hmono := Binary64.toInt64_mono h
  have hone : (-1 : Binary64).toInt64 = -1 := by decide +kernel
  rw [hone] at hmono
  rw [Binary64.one_mul]
  omega

end

end TempoPoint

namespace Timing

/-! ## The last stretch after the others -/

theorem stretchesOf_concat (stop : Int) (earlier : List TempoPoint) (last : TempoPoint) :
    stretchesOf stop (earlier ++ [last]) = stretchesOf last.time earlier ++ [(last, stop)] := by
  induction earlier with
  | nil => rfl
  | cons point rest ih =>
    have hend : endBefore stop (rest ++ [last]) = endBefore last.time rest := by
      cases rest <;> rfl
    rw [List.cons_append, stretchesOf, ih, hend]
    rfl

/-- The measure lines of the stretches of tempo points, the last one to `stop`. -/
def linesOf (timing : Timing) (stop : Int) (points : List TempoPoint) : List MeasureLine :=
  (stretchesOf stop points).flatMap fun stretch => timing.stretchLines stretch.1 stretch.2

theorem measureLines_eq_linesOf (timing : Timing) (stop : Int) :
    timing.measureLines stop = timing.linesOf stop timing.tempoPoints := by
  rw [linesOf, ← stretchesTo_eq]
  rfl

theorem measureLines_concat {timing : Timing} {earlier : List TempoPoint} {last : TempoPoint}
    (hpoints : timing.tempoPoints = earlier ++ [last]) (stop : Int) :
    timing.measureLines stop = timing.linesOf last.time earlier ++ timing.stretchLines last stop := by
  rw [measureLines_eq_linesOf, hpoints, linesOf, stretchesOf_concat, List.flatMap_append, List.flatMap_singleton]
  rfl

/-! ## The line at a tempo point -/

/-- The line at a tempo point, with its tempo. -/
def startLine (timing : Timing) (point : TempoPoint) : MeasureLine :=
  { timing.lineAt point.time with bpm := point.bpm }

section

variable {timing : Timing} {point : TempoPoint} {stop : Int}

theorem lineAt_tempoPoint (h : point ∈ timing.tempoPoints) :
    timing.lineAt point.time = timing.startLine point := by
  simp only [startLine, lineAt, bpmAt_tempoPoint h]

theorem lineAfter_zero (h : point ∈ timing.tempoPoints) :
    timing.lineAfter (timing.startLine point) point.measureLength 0 = timing.startLine point := by
  have hpoint : (timing.stretchAt point.time).point = point := tempoAt_tempoPoint h
  have hmeasure : timing.measureAt point.time + Binary64.ofInt (0 : Nat) = timing.measureAt point.time := by
    rw [measureAt, hpoint, TempoPoint.measuresTo_time]
    exact Binary64.add_zero_add (Nat.zero_le _) _
  have htime := Binary64.toInt64_zero_mul point.measureLength
  simp only [lineAfter, startLine, lineAt, htime, Int.add_zero]
  rw [hmeasure]

theorem stretchLines_of_short (h : ¬MarkedAtEnds point stop) :
    timing.stretchLines point stop =
      (List.range (point.wholeMeasuresTo stop + 1).toNat).map
        (timing.lineAfter (timing.startLine point) point.measureLength) := by
  simp only [MarkedAtEnds] at h
  simp only [stretchLines, if_neg h, TempoPoint.wholeMeasuresTo, startLine]

/-- A stretch marked at its ends is one of many measures. -/
theorem not_marked_of_nonpos (h : point.wholeMeasuresTo stop ≤ 0) : ¬MarkedAtEnds point stop := by
  rintro ⟨x, hx, y, hy, hlt⟩
  have hmono := Binary64.toInt64_mono ⟨x, hx, y, hy, Int.le_of_lt hlt⟩
  rw [maxMeasures_eq, Binary64.toInt64_ofNat (by decide)] at hmono
  unfold TempoPoint.wholeMeasuresTo at h
  omega

theorem stretchLines_of_neg (h : point.wholeMeasuresTo stop < 0) : timing.stretchLines point stop = [] := by
  have hnone : (point.wholeMeasuresTo stop + 1).toNat = 0 := by omega
  rw [stretchLines_of_short (not_marked_of_nonpos (by omega)), hnone]
  rfl

/-- A stretch of less than a measure has the line at its tempo point only. -/
theorem stretchLines_of_zero (hmem : point ∈ timing.tempoPoints) (h : point.wholeMeasuresTo stop = 0) :
    timing.stretchLines point stop = [timing.startLine point] := by
  rw [stretchLines_of_short (not_marked_of_nonpos (by omega)), h]
  exact congrArg (· :: []) (lineAfter_zero hmem)

/-- A stretch of a measure or more has a line at its tempo point and others: one
at its end, or those of its measures. -/
theorem stretchLines_of_pos (hmem : point ∈ timing.tempoPoints) (h : 0 < point.wholeMeasuresTo stop) :
    ∃ next more, timing.stretchLines point stop = timing.startLine point :: next :: more ∧
      (MarkedAtEnds point stop ∧ next.time = stop ∨ ¬MarkedAtEnds point stop ∧
        next.time = point.time + (Binary64.ofInt (1 : Nat) * point.measureLength).toInt64) := by
  by_cases hlong : MarkedAtEnds point stop
  · refine ⟨timing.lineAt stop, [], ?_, .inl ⟨hlong, rfl⟩⟩
    rw [stretchLines_of_marked hlong, lineAt_tempoPoint hmem]
  · obtain ⟨count, hcount⟩ : ∃ count : Nat, (point.wholeMeasuresTo stop + 1).toNat = count + 2 :=
      ⟨(point.wholeMeasuresTo stop - 1).toNat, by omega⟩
    rw [stretchLines_of_short hlong, hcount, List.range_succ_eq_map, List.map_cons, lineAfter_zero hmem,
      List.range_succ_eq_map, List.map_cons, List.map_cons]
    exact ⟨_, _, rfl, .inr ⟨hlong, rfl⟩⟩

/-- Backward measures lead to no later time than the tempo point. -/
theorem le_time_of_backward {line : MeasureLine} (hlt : stop < point.time)
    (hsign : Binary64.Signed true point.measureLength) (h : line ∈ timing.stretchLines point stop) :
    line.time ≤ point.time := by
  by_cases hlong : MarkedAtEnds point stop
  · rcases (mem_stretchLines_of_marked hlong).1 h with rfl | rfl
    · exact Int.le_refl _
    · exact Int.le_of_lt hlt
  · obtain ⟨k, -, htime⟩ := exists_of_mem_stretchLines hlong h
    have hsigned : Binary64.Signed (false ^^ true) (Binary64.ofInt k * point.measureLength) :=
      (Binary64.signed_ofNat k).mul hsign
    have hback := Binary64.Signed.toInt64_nonpos hsigned
    omega

end

/-! ## A chart that ends before its last tempo point -/

/-- **The last stretch of a chart that ends before it** follows those of the
other tempo points. It is the one line at its tempo point just when no measure of
its tempo, forwards or backwards, fits between the end and the tempo point. If one
fits, a forward tempo draws nothing, and a backward tempo draws more lines: none is
later than the tempo point, and where a measure takes a millisecond or more, the
next one is earlier. -/
theorem measureLines_of_stop_lt {timing : Timing} {earlier : List TempoPoint} {last : TempoPoint} {stop : Int}
    (hpoints : timing.tempoPoints = earlier ++ [last]) (hlt : stop < last.time)
    (hspan : last.time - stop ≤ 2 ^ (64 : Nat)) :
    timing.measureLines stop = timing.linesOf last.time earlier ++ timing.stretchLines last stop ∧
      (timing.stretchLines last stop = [timing.startLine last] ↔ ¬last.MeasureWithin (last.time - stop)) ∧
      (last.MeasureWithin (last.time - stop) →
        (Binary64.Signed false last.beatLength → timing.stretchLines last stop = []) ∧
        (Binary64.Signed true last.beatLength → ∃ next more,
          timing.stretchLines last stop = timing.startLine last :: next :: more ∧
            (∀ line ∈ next :: more, line.time ≤ last.time) ∧
            (MarkedAtEnds last stop ∨ last.measureLength ≤ -1 → next.time < last.time))) := by
  have hmem : last ∈ timing.tempoPoints := by simp [hpoints]
  have hzero := TempoPoint.wholeMeasuresTo_eq_zero_iff hlt hspan
  refine ⟨measureLines_concat hpoints stop, ⟨?_, ?_⟩, fun hwithin => ⟨fun hforward => ?_, fun hbackward => ?_⟩⟩
  · intro hstart
    rw [← hzero]
    -- No line and more than one line are other than one line.
    rcases Int.lt_trichotomy (last.wholeMeasuresTo stop) 0 with hneg | hnone | hpos
    · rw [stretchLines_of_neg hneg] at hstart
      cases hstart
    · exact hnone
    · obtain ⟨next, more, hlines, -⟩ := stretchLines_of_pos hmem hpos
      rw [hlines] at hstart
      cases hstart
  · intro hnot
    exact stretchLines_of_zero hmem (hzero.2 hnot)
  · have hle := (TempoPoint.wholeMeasuresTo_forward hlt hspan (TempoPoint.signed_measureLength hforward)).1
    have hne : last.wholeMeasuresTo stop ≠ 0 := fun h => hzero.1 h hwithin
    exact stretchLines_of_neg (by omega)
  · have hsign := TempoPoint.signed_measureLength hbackward
    have hle := (TempoPoint.wholeMeasuresTo_backward hlt hspan hsign).1
    have hne : last.wholeMeasuresTo stop ≠ 0 := fun h => hzero.1 h hwithin
    obtain ⟨next, more, hlines, hnext⟩ := stretchLines_of_pos hmem (by omega : 0 < last.wholeMeasuresTo stop)
    refine ⟨next, more, hlines, fun line hline => ?_, fun hback => ?_⟩
    · have hdrawn : line ∈ timing.stretchLines last stop := by
        rw [hlines]
        exact List.mem_cons_of_mem _ hline
      exact le_time_of_backward hlt hsign hdrawn
    · rcases hnext with ⟨-, htime⟩ | ⟨hshort, htime⟩
      · omega
      · have hmeasure := TempoPoint.toInt64_measure_neg (hback.resolve_left hshort)
        omega

/-! ## An end three seconds before a tempo -/

/-- A tempo, and one of the given beat length four seconds later. -/
def laterTempo (beatLength : Binary64) : List TimingPoint :=
  [{ time := 0, beatLength := 500 }, { time := 4000, beatLength }]

theorem exists_laterTempo :
    ∃ timing, ofPoints? 0 (laterTempo 500) = some (timing, []) ∧
      timing.tempoPoints = [⟨0, 500⟩] ++ [⟨4000, 500⟩] ∧
      (timing.measureLines 1000).map MeasureLine.time = [0, 2000, 4000] ∧
      timing.stretchLines ⟨4000, 500⟩ 1000 = [] := by
  have hall : (ofPoints? 0 (laterTempo 500)).any (fun made => decide (made.2 = [] ∧
      made.1.tempoPoints = [⟨0, 500⟩] ++ [⟨4000, 500⟩] ∧
      (made.1.measureLines 1000).map MeasureLine.time = [0, 2000, 4000] ∧
      made.1.stretchLines ⟨4000, 500⟩ 1000 = [])) = true := by decide +kernel
  obtain ⟨⟨timing, skipped⟩, hmade, hrun⟩ := (Option.any_eq_true ..).1 hall
  obtain ⟨rfl, hpoints, hlines, hlast⟩ := of_decide_eq_true hrun
  exact ⟨timing, hmade, hpoints, hlines, hlast⟩

theorem measureLines_of_stop_lt_laterTempo :
    ∃ timing, ofPoints? 0 (laterTempo 500) = some (timing, []) ∧
      timing.tempoPoints = [⟨0, 500⟩] ++ [⟨4000, 500⟩] ∧ (1000 : Int) < 4000 ∧ (4000 - 1000 : Int) ≤ 2 ^ (64 : Nat) ∧
      (timing.stretchLines ⟨4000, 500⟩ 1000 = [timing.startLine ⟨4000, 500⟩] ↔
        ¬TempoPoint.MeasureWithin ⟨4000, 500⟩ (4000 - 1000)) ∧
      TempoPoint.MeasureWithin ⟨4000, 500⟩ (4000 - 1000) ∧ timing.stretchLines ⟨4000, 500⟩ 1000 = [] := by
  obtain ⟨timing, hmade, hpoints, -⟩ := exists_laterTempo
  have hwithin : TempoPoint.MeasureWithin ⟨4000, 500⟩ (4000 - 1000) := by decide +kernel
  have hlt : (1000 : Int) < (⟨4000, 500⟩ : TempoPoint).time := by decide
  obtain ⟨-, hone, hmany⟩ := measureLines_of_stop_lt hpoints hlt (by decide)
  have hforward : Binary64.Signed false (500 : Binary64) := Binary64.signed_ofNat 500
  exact ⟨timing, hmade, hpoints, by decide, by decide, hone, hwithin, (hmany hwithin).1 hforward⟩

/-- The second tempo has no line. -/
theorem not_startLine_laterTempo :
    ∃ timing, ofPoints? 0 (laterTempo 500) = some (timing, []) ∧
      (timing.measureLines 1000).map MeasureLine.time = [0, 2000, 4000] ∧
      ¬∀ earlier last stop, timing.tempoPoints = earlier ++ [last] → stop < last.time →
        timing.stretchLines last stop =
          [⟨last.time, timing.measureAt last.time, last.bpm, timing.scrollAt last.time⟩] := by
  obtain ⟨timing, hmade, hpoints, hlines, hlast⟩ := exists_laterTempo
  refine ⟨timing, hmade, hlines, fun hall => ?_⟩
  have hstart := hall _ _ 1000 hpoints (by decide)
  rw [hlast] at hstart
  cases hstart

/-- A second tempo whose measures run backwards has lines back to the end of the
chart. -/
example : ((ofPoints? 0 (laterTempo (-500))).map fun made =>
    (made.1.stretchLines ⟨4000, -500⟩ 1000).map MeasureLine.time) = some [4000, 2000] := by decide +kernel

end Timing

end ManiaChart
