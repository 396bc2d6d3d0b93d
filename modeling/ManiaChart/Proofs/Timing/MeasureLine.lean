/-
The values that measure lines carry. A line of a stretch that is marked at its
two ends carries what is active at its millisecond; any other line carries the
scroll speed active there, but the tempo of the stretch it belongs to.
-/
import Mathlib.Algebra.Group.Int.Defs
import Mathlib.Algebra.Group.Nat.Defs
import ManiaChart.Proofs.Binary64.Spans
import ManiaChart.Timing.MeasureLine

namespace ManiaChart.Timing

/-- The stretches of a chart that ends at `stop`, each with its end. -/
def stretchesTo (timing : Timing) (stop : Int) : List (TempoPoint × Int) :=
  timing.tempoPoints.zip (timing.stretchEnds stop)

/-- Whether the stretch from a tempo point to `stop` is marked at its two ends
only. -/
def MarkedAtEnds (point : TempoPoint) (stop : Int) : Prop :=
  maxMeasures < Binary64.ofInt (stop - point.time) / point.measureLength

/-- Whether the stretch from a tempo point to `stop` draws a line at a
millisecond. -/
def DrawsAt (timing : Timing) (point : TempoPoint) (stop t : Int) : Prop :=
  ∃ line ∈ timing.stretchLines point stop, line.time = t

theorem mem_measureLines {timing : Timing} {stop : Int} {line : MeasureLine} :
    line ∈ timing.measureLines stop ↔
      ∃ stretch ∈ timing.stretchesTo stop, line ∈ timing.stretchLines stretch.1 stretch.2 :=
  List.mem_flatMap

theorem scroll_of_mem_stretchLines {timing : Timing} {point : TempoPoint} {stop : Int}
    {line : MeasureLine} (h : line ∈ timing.stretchLines point stop) :
    line.scroll = timing.scrollAt line.time := by
  unfold stretchLines at h
  dsimp only at h
  split at h
  · simp only [List.mem_cons, List.not_mem_nil, or_false] at h
    rcases h with rfl | rfl <;> rfl
  · obtain ⟨k, -, rfl⟩ := List.mem_map.1 h
    rfl

theorem scroll_of_mem_measureLines {timing : Timing} {stop : Int} {line : MeasureLine}
    (h : line ∈ timing.measureLines stop) : line.scroll = timing.scrollAt line.time := by
  obtain ⟨stretch, -, hline⟩ := mem_measureLines.1 h
  exact scroll_of_mem_stretchLines hline

theorem stretchLines_of_marked {timing : Timing} {point : TempoPoint} {stop : Int}
    (h : MarkedAtEnds point stop) :
    timing.stretchLines point stop = [timing.lineAt point.time, timing.lineAt stop] := by
  simp only [MarkedAtEnds] at h
  simp only [stretchLines, if_pos h]

theorem mem_stretchLines_of_marked {timing : Timing} {point : TempoPoint} {stop : Int} {line : MeasureLine}
    (h : MarkedAtEnds point stop) :
    line ∈ timing.stretchLines point stop ↔ line = timing.lineAt point.time ∨ line = timing.lineAt stop := by
  simp [stretchLines_of_marked h]

/-- A line of a stretch marked at its ends carries what is active at its
millisecond. -/
theorem eq_lineAt_of_marked {timing : Timing} {point : TempoPoint} {stop : Int} {line : MeasureLine}
    (hlong : MarkedAtEnds point stop) (h : line ∈ timing.stretchLines point stop) :
    line = timing.lineAt line.time := by
  rcases (mem_stretchLines_of_marked hlong).1 h with rfl | rfl <;> rfl

/-- A line of a stretch marked at its ends carries the active tempo, any other
line the tempo of the stretch. -/
theorem bpm_of_mem_stretchLines {timing : Timing} {point : TempoPoint} {stop : Int}
    {line : MeasureLine} (h : line ∈ timing.stretchLines point stop) :
    MarkedAtEnds point stop ∧ line.bpm = timing.bpmAt line.time ∨
      ¬MarkedAtEnds point stop ∧ line.bpm = point.bpm := by
  unfold stretchLines at h
  dsimp only at h
  split at h
  next hlong =>
    simp only [List.mem_cons, List.not_mem_nil, or_false] at h
    rcases h with rfl | rfl <;> exact .inl ⟨hlong, rfl⟩
  next hshort =>
    obtain ⟨k, -, rfl⟩ := List.mem_map.1 h
    exact .inr ⟨hshort, rfl⟩

/-- Whether, of all stretches, the one from `point` to `next` is the last that
draws a line at a millisecond. -/
def LastDrawnBy (timing : Timing) (stop t : Int) (point : TempoPoint) (next : Int) : Prop :=
  ∃ before after, timing.stretchesTo stop = before ++ (point, next) :: after ∧ timing.DrawsAt point next t ∧
    ∀ later ∈ after, ¬timing.DrawsAt later.1 later.2 t

theorem not_drawsAt_iff {timing : Timing} {point : TempoPoint} {stop t : Int} :
    ¬timing.DrawsAt point stop t ↔ ((timing.stretchLines point stop).filter (·.time = t)).getLast? = none := by
  simp [DrawsAt]

/-- The last line at a millisecond is one of the last stretch that draws a line
there. -/
theorem lastDrawnBy_of_getLast? {timing : Timing} {stop t : Int} {line : MeasureLine}
    (h : ((timing.measureLines stop).filter (·.time = t)).getLast? = some line) :
    ∃ point next, timing.LastDrawnBy stop t point next ∧
      line ∈ timing.stretchLines point next ∧ line.time = t := by
  rw [measureLines, List.filter_flatMap, List.getLast?_flatMap, List.findSome?_eq_some_iff] at h
  obtain ⟨after, ⟨point, next⟩, before, hsplit, hlast, hnone⟩ := h
  have hmem : line ∈ timing.stretchLines point next ∧ line.time = t := by
    simpa using List.mem_filter.1 (List.mem_of_getLast? hlast)
  refine ⟨point, next, ⟨before.reverse, after.reverse, ?_, ⟨line, hmem⟩, fun later hlater => ?_⟩, hmem⟩
  · rw [stretchesTo, ← List.reverse_inj, hsplit]
    simp
  · exact not_drawsAt_iff.2 (hnone later (List.mem_reverse.1 hlater))

/-- Of the lines at a millisecond the last stretch that draws one there draws
the last one. -/
theorem getLast?_of_lastDrawnBy {timing : Timing} {stop t : Int} {point : TempoPoint} {next : Int}
    (h : timing.LastDrawnBy stop t point next) :
    ∃ line, ((timing.measureLines stop).filter (·.time = t)).getLast? = some line ∧
      line ∈ timing.stretchLines point next ∧ line.time = t := by
  obtain ⟨before, after, hsplit, hdraws, hafter⟩ := h
  cases hlast : ((timing.stretchLines point next).filter (·.time = t)).getLast? with
  | none => exact absurd hdraws (not_drawsAt_iff.2 hlast)
  | some line =>
    refine ⟨line, ?_, by simpa using List.mem_filter.1 (List.mem_of_getLast? hlast)⟩
    rw [measureLines, List.filter_flatMap, List.getLast?_flatMap, List.findSome?_eq_some_iff]
    refine ⟨after.reverse, (point, next), before.reverse, ?_, hlast, fun later hlater => ?_⟩
    · rw [← stretchesTo, hsplit]
      simp
    · exact not_drawsAt_iff.1 (hafter later (List.mem_reverse.1 hlater))

/-! ## Where each stretch ends -/

/-- A stretch lies between tempo points, or ends where the chart does. -/
theorem mem_of_mem_stretchesTo {timing : Timing} {stop : Int} {stretch : TempoPoint × Int}
    (h : stretch ∈ timing.stretchesTo stop) :
    stretch.1 ∈ timing.tempoPoints ∧ (stretch.2 = stop ∨ ∃ next ∈ timing.tempoPoints, stretch.2 = next.time) := by
  obtain ⟨hpoint, hend⟩ := List.of_mem_zip h
  refine ⟨hpoint, ?_⟩
  rcases List.mem_append.1 hend with hnext | hstop
  · obtain ⟨next, hmem, htime⟩ := List.mem_map.1 hnext
    exact .inr ⟨next, List.mem_of_mem_tail hmem, htime.symm⟩
  · exact .inl (List.mem_singleton.1 hstop)

/-- The end of a stretch that is followed by those of `later`. -/
def endBefore (stop : Int) (later : List TempoPoint) :
    Int := (later.head?.map TempoPoint.time).getD stop

/-- The stretches of tempo points, the last one to `stop`. -/
def stretchesOf (stop : Int) : List TempoPoint → List (TempoPoint × Int)
  | [] => []
  | point :: later => (point, endBefore stop later) :: stretchesOf stop later

theorem stretchesTo_eq (timing : Timing) (stop : Int) :
    timing.stretchesTo stop = stretchesOf stop timing.tempoPoints := by
  have hzip : ∀ points : List TempoPoint,
      points.zip (points.tail.map TempoPoint.time ++ [stop]) = stretchesOf stop points := fun points => by
    induction points with
    | nil => rfl
    | cons point later ih =>
      cases later with
      | nil => rfl
      | cons next rest =>
        rw [stretchesOf, ← ih]
        rfl
  exact hzip timing.tempoPoints

theorem stretchesOf_append (stop : Int) (earlier later : List TempoPoint) (point : TempoPoint) :
    ∃ before, stretchesOf stop (earlier ++ point :: later) =
      before ++ (point, endBefore stop later) :: stretchesOf stop later := by
  induction earlier with
  | nil => exact ⟨[], rfl⟩
  | cons first rest ih =>
    obtain ⟨before, hbefore⟩ := ih
    refine ⟨(first, endBefore stop (rest ++ point :: later)) :: before, ?_⟩
    rw [List.cons_append, stretchesOf, hbefore]
    rfl

theorem map_fst_stretchesOf (stop : Int) (points : List TempoPoint) :
    (stretchesOf stop points).map Prod.fst = points := by
  induction points with
  | nil => rfl
  | cons point later ih => rw [stretchesOf, List.map_cons, ih]

theorem split_of_stretchesOf {stop next : Int} {points : List TempoPoint}
    {before after : List (TempoPoint × Int)} {point : TempoPoint}
    (h : stretchesOf stop points = before ++ (point, next) :: after) :
    ∃ earlier later, points = earlier ++ point :: later ∧ next = endBefore stop later ∧
      after = stretchesOf stop later := by
  induction before generalizing points with
  | nil =>
    cases points with
    | nil => cases h
    | cons first later =>
      cases h
      exact ⟨[], later, rfl, rfl, rfl⟩
  | cons entry rest ih =>
    cases points with
    | nil => cases h
    | cons first later =>
      rw [stretchesOf, List.cons_append, List.cons.injEq] at h
      obtain ⟨earlier, others, rfl, hnext, hafter⟩ := ih h.2
      exact ⟨first :: earlier, others, rfl, hnext, hafter⟩

/-! ## Stretches of a positive tempo -/

theorem measureLength_pos {point : TempoPoint} (h : 0 < point.beatLength) :
    0 < point.measureLength :=
  Binary64.mul_ofInt_pos h (by decide : 0 < 4) (by decide)

theorem maxMeasures_eq : maxMeasures = Binary64.ofInt (10000 : Nat) := rfl

/-- A stretch that does not end before its tempo point has no negative number of
measures. -/
theorem measures_nonneg {point : TempoPoint} {stop : Int} (hpos : 0 < point.measureLength)
    (h : point.time ≤ stop) :
    0 ≤ (Binary64.ofInt (stop - point.time) / point.measureLength).toInt64 := by
  obtain ⟨span, hspan⟩ := Int.eq_ofNat_of_zero_le (Int.sub_nonneg.2 h)
  have hsigned : Binary64.Signed (false ^^ false) (Binary64.ofInt span / point.measureLength) :=
    (Binary64.signed_ofNat span).div (Binary64.signed_of_pos hpos)
  rw [hspan]
  exact Binary64.Signed.toInt64_nonneg hsigned

/-- A stretch that ends before its tempo point has no positive number of
measures. -/
theorem measures_signed {point : TempoPoint} {stop : Int} (hpos : 0 < point.measureLength)
    (h : stop < point.time) :
    Binary64.Signed true (Binary64.ofInt (stop - point.time) / point.measureLength) := by
  have hnegative : decide (stop - point.time < 0) = true := by
    rw [decide_eq_true_eq]
    omega
  have hspan := Binary64.signed_ofInt (stop - point.time)
  rw [hnegative] at hspan
  exact hspan.div (Binary64.signed_of_pos hpos)

theorem not_marked_of_lt {point : TempoPoint} {stop : Int} (hpos : 0 < point.measureLength)
    (h : stop < point.time) : ¬MarkedAtEnds point stop := by
  rw [MarkedAtEnds, maxMeasures_eq]
  exact (measures_signed hpos h).not_ofInt_lt (by decide)

/-- A stretch that is not marked at its ends has a line for each measure. -/
theorem exists_lineAfter_of_mem_stretchLines {timing : Timing} {point : TempoPoint} {stop : Int}
    {line : MeasureLine} (hshort : ¬MarkedAtEnds point stop)
    (h : line ∈ timing.stretchLines point stop) :
    ∃ k : Nat, (k : Int) ≤ (Binary64.ofInt (stop - point.time) / point.measureLength).toInt64 ∧
      line = timing.lineAfter { timing.lineAt point.time with bpm := point.bpm } point.measureLength k := by
  simp only [MarkedAtEnds] at hshort
  simp only [stretchLines, if_neg hshort, List.mem_map, List.mem_range] at h
  obtain ⟨k, hk, rfl⟩ := h
  exact ⟨k, by omega, rfl⟩

theorem exists_of_mem_stretchLines {timing : Timing} {point : TempoPoint} {stop : Int}
    {line : MeasureLine} (hshort : ¬MarkedAtEnds point stop)
    (h : line ∈ timing.stretchLines point stop) :
    ∃ k : Nat, (k : Int) ≤ (Binary64.ofInt (stop - point.time) / point.measureLength).toInt64 ∧
      line.time = point.time + (Binary64.ofInt k * point.measureLength).toInt64 := by
  obtain ⟨k, hk, rfl⟩ := exists_lineAfter_of_mem_stretchLines hshort h
  exact ⟨k, hk, rfl⟩

theorem lineAfter_mem_stretchLines {timing : Timing} {point : TempoPoint} {stop : Int} {k : Nat}
    (hshort : ¬MarkedAtEnds point stop)
    (hk : (k : Int) ≤ (Binary64.ofInt (stop - point.time) / point.measureLength).toInt64) :
    timing.lineAfter { timing.lineAt point.time with bpm := point.bpm } point.measureLength k ∈
      timing.stretchLines point stop := by
  simp only [MarkedAtEnds] at hshort
  simp only [stretchLines, if_neg hshort, List.mem_map, List.mem_range]
  exact ⟨k, by omega, rfl⟩

/-- A stretch has a line at its tempo point unless it ends a measure or more
before it. -/
theorem drawsAt_time_iff {timing : Timing} {point : TempoPoint} {stop : Int}
    (hpos : 0 < point.measureLength) :
    timing.DrawsAt point stop point.time ↔
      0 ≤ (Binary64.ofInt (stop - point.time) / point.measureLength).toInt64 := by
  refine ⟨?_, ?_⟩
  · intro hmem
    obtain ⟨line, hmem, -⟩ := hmem
    by_cases hle : point.time ≤ stop
    · exact measures_nonneg hpos hle
    · obtain ⟨k, hk, -⟩ := exists_of_mem_stretchLines (not_marked_of_lt hpos (Int.not_le.1 hle)) hmem
      omega
  · intro hmeasures
    by_cases hlong : MarkedAtEnds point stop
    · exact ⟨timing.lineAt point.time, (mem_stretchLines_of_marked hlong).2 (.inl rfl), rfl⟩
    · refine ⟨_, lineAfter_mem_stretchLines hlong (k := 0) hmeasures, ?_⟩
      simp only [lineAfter, lineAt, Binary64.toInt64_zero_mul, Int.add_zero]

/-- No line of a stretch with a line for each measure is before its tempo
point. -/
theorem time_le_of_mem_stretchLines {timing : Timing} {point : TempoPoint} {stop : Int} {line : MeasureLine}
    (hpos : 0 < point.measureLength) (hshort : ¬MarkedAtEnds point stop)
    (h : line ∈ timing.stretchLines point stop) : point.time ≤ line.time := by
  obtain ⟨k, -, htime⟩ := exists_of_mem_stretchLines hshort h
  have hsigned : Binary64.Signed (false ^^ false) (Binary64.ofInt k * point.measureLength) :=
    (Binary64.signed_ofNat k).mul (Binary64.signed_of_pos hpos)
  have hoffset := Binary64.Signed.toInt64_nonneg hsigned
  omega

theorem time_le_of_drawsAt {timing : Timing} {point : TempoPoint} {stop t : Int}
    (hpos : 0 < point.measureLength) (hle : point.time ≤ stop) (h : timing.DrawsAt point stop t) :
    point.time ≤ t := by
  obtain ⟨line, hmem, rfl⟩ := h
  by_cases hlong : MarkedAtEnds point stop
  · rcases (mem_stretchLines_of_marked hlong).1 hmem with rfl | rfl
    · exact Int.le_refl _
    · exact hle
  · exact time_le_of_mem_stretchLines hpos hlong hmem

/-- No line of a stretch is past its end, rounding included. -/
theorem le_stop_of_drawsAt {timing : Timing} {point : TempoPoint} {stop t : Int}
    (hpos : 0 < point.measureLength) (hle : point.time ≤ stop)
    (hnear : stop - point.time < 2 ^ (38 : Nat)) (h : timing.DrawsAt point stop t) : t ≤ stop := by
  obtain ⟨line, hmem, rfl⟩ := h
  by_cases hlong : MarkedAtEnds point stop
  · rcases (mem_stretchLines_of_marked hlong).1 hmem with rfl | rfl
    · exact hle
    · exact Int.le_refl _
  · obtain ⟨k, hk, htime⟩ := exists_of_mem_stretchLines hlong hmem
    obtain ⟨span, hspan⟩ := Int.eq_ofNat_of_zero_le (Int.sub_nonneg.2 hle)
    rw [MarkedAtEnds, maxMeasures_eq, hspan] at hlong
    rw [hspan] at hk
    have hoffset := Binary64.toInt64_mul_le hpos (by decide) (by omega) hlong hk
    omega

/-- A stretch that ends before its tempo point has a line there or none. -/
theorem eq_time_of_drawsAt {timing : Timing} {point : TempoPoint} {stop t : Int}
    (hpos : 0 < point.measureLength) (hlt : stop < point.time) (h : timing.DrawsAt point stop t) :
    t = point.time := by
  obtain ⟨line, hmem, rfl⟩ := h
  obtain ⟨k, hk, htime⟩ := exists_of_mem_stretchLines (not_marked_of_lt hpos hlt) hmem
  have hmeasures := (measures_signed hpos hlt).toInt64_nonpos
  have hk0 : k = 0 := by omega
  rw [htime, hk0, Binary64.toInt64_zero_mul, Int.add_zero]

end ManiaChart.Timing
