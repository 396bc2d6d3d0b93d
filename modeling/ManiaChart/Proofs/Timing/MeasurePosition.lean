/-
Measure positions. Each stretch of a timing starts at the position where the one
before it ends (`Timing.Chained`), so the position of a time is that of its tempo
point and the measures since then (`Timing.measureAt_of_stretchesFrom`).

Where all measures are a whole number of milliseconds long nothing is rounded,
and a measure line stands at the position of its own millisecond
(`Timing.measure_of_mem_measureLines`).
-/
import ManiaChart.Proofs.Binary64.Exact
import ManiaChart.Proofs.Timing.Lookup
import ManiaChart.Proofs.Timing.MeasureLine
import ManiaChart.Proofs.Timing.WrittenPoints

namespace ManiaChart

/-! ## Measures of whole milliseconds -/

/-- Whether the measures of a tempo are a whole number of milliseconds long, of
33 binary digits. -/
def TempoPoint.Whole (point : TempoPoint) : Prop :=
  ∃ n : Nat, 0 < n ∧ n ≤ 2 ^ (33 : Nat) ∧ point.measureLength = Binary64.ofInt n

namespace TempoPoint

theorem Whole.pos {point : TempoPoint} (h : point.Whole) : 0 < point.measureLength := by
  obtain ⟨n, hpos, hn, hlength⟩ := h
  rw [hlength, Binary64.ofInt_eq (by omega)]
  exact Binary64.pos_finite (Nat.mul_pos hpos Binary64.unitsPerOne_pos)

theorem measuresTo_eq {point : TempoPoint} (hpos : 0 < point.measureLength) (t : Int) :
    point.measuresTo t = Binary64.ofInt (t - point.time) / point.measureLength :=
  if_pos hpos

/-- At its own millisecond a tempo point has counted nothing. -/
theorem measuresTo_time (point : TempoPoint) : point.measuresTo point.time = Binary64.ofInt (0 : Nat) := by
  by_cases hpos : 0 < point.measureLength
  · rw [measuresTo_eq hpos, Int.sub_self]
    exact Binary64.zero_div hpos
  · exact if_neg hpos

/-- After `k` measures, `k` measures are counted. -/
theorem measuresTo_of_whole {point : TempoPoint} {n k : Nat} (hpos : 0 < n) (hn : n ≤ 2 ^ (33 : Nat))
    (hlength : point.measureLength = Binary64.ofInt n) (hk : k ≤ 2 ^ (14 : Nat)) :
    point.measuresTo (point.time + (k * n : Nat)) = Binary64.ofInt k := by
  have hkn : k * n ≤ 2 ^ (14 : Nat) * 2 ^ (33 : Nat) := Nat.mul_le_mul hk hn
  have hspan : point.time + (k * n : Nat) - point.time = (k * n : Nat) := by omega
  rw [measuresTo_eq (Whole.pos ⟨n, hpos, hn, hlength⟩), hspan, hlength]
  exact Binary64.ofNat_div_ofNat (by omega) (by omega) hpos (by omega)

end TempoPoint

namespace Timing

/-! ## Stretches one after another -/

/-- Whether each stretch starts at the measure position where the one before it
ends. -/
def Chained (timing : Timing) : Prop := timing.stretches.toList = stretchesFrom 0 timing.tempoPoints

theorem chained_of_ofPoints? {offset : Int} {points : List TimingPoint} {timing : Timing}
    {skipped : List Int} (h : ofPoints? offset points = some (timing, skipped)) : timing.Chained := by
  rw [Chained, tempoPoints_of_ofPoints? h]
  exact (series_of_ofPoints? h).1

theorem stretchesFrom_cons (start : Binary64) (point : TempoPoint) (later : List TempoPoint) :
    ∃ rest, stretchesFrom start (point :: later) = ⟨point, start⟩ :: rest ∧
      rest.map TempoStretch.point = later := by
  cases later with
  | nil => exact ⟨[], rfl, rfl⟩
  | cons next more => exact ⟨_, rfl, map_point_stretchesFrom _ _⟩

theorem stretchesFrom_append (start : Binary64) (earlier later : List TempoPoint) (point : TempoPoint) :
    ∃ before middle, stretchesFrom start (earlier ++ point :: later) =
      before ++ stretchesFrom middle (point :: later) := by
  induction earlier generalizing start with
  | nil => exact ⟨[], start, rfl⟩
  | cons first rest ih =>
    cases rest with
    | nil => exact ⟨[⟨first, start⟩], _, rfl⟩
    | cons second more =>
      obtain ⟨before, middle, hbefore⟩ := ih (start + first.measuresTo second.time)
      refine ⟨⟨first, start⟩ :: before, middle, ?_⟩
      simp only [List.cons_append, stretchesFrom] at hbefore ⊢
      rw [hbefore]

/-- The stretches from a tempo point on, seen from the next one. -/
theorem append_stretchesFrom_cons {stretches before : List TempoStretch} {start : Binary64}
    {point next : TempoPoint} {rest : List TempoPoint}
    (h : stretches = before ++ stretchesFrom start (point :: next :: rest)) :
    stretches = (before ++ [⟨point, start⟩]) ++ stretchesFrom (start + point.measuresTo next.time) (next :: rest) := by
  rw [h, List.append_assoc]
  rfl

/-- Up to the next tempo point, measures are counted from a tempo point on. -/
theorem measureAt_of_stretchesFrom {timing : Timing} {before : List TempoStretch} {start : Binary64}
    {point : TempoPoint} {later : List TempoPoint} {t : Int}
    (hsplit : timing.stretches.toList = before ++ stretchesFrom start (point :: later))
    (hle : point.time ≤ t) (hlt : ∀ next ∈ later, t < next.time) :
    timing.measureAt t = start + point.measuresTo t := by
  obtain ⟨rest, hrest, hlater⟩ := stretchesFrom_cons start point later
  rw [hrest] at hsplit
  rw [measureAt, stretchAt_of_split hsplit hle fun next hmem => hlt _ (hlater ▸ List.mem_map_of_mem hmem)]

theorem measureAt_of_first {timing : Timing} {start : Binary64} {point : TempoPoint} {later : List TempoPoint}
    {t : Int} (hsplit : timing.stretches.toList = stretchesFrom start (point :: later))
    (hlt : ∀ next ∈ later, t < next.time) : timing.measureAt t = start + point.measuresTo t := by
  obtain ⟨rest, hrest, hlater⟩ := stretchesFrom_cons start point later
  rw [hrest] at hsplit
  rw [measureAt, stretchAt_of_first hsplit fun next hmem => hlt _ (hlater ▸ List.mem_map_of_mem hmem)]

/-! ## Lines of whole measures -/

theorem le_maxMeasures {point : TempoPoint} {stop : Int} {k : Nat} (hshort : ¬MarkedAtEnds point stop)
    (hk : (k : Int) ≤ (Binary64.ofInt (stop - point.time) / point.measureLength).toInt64) : k ≤ 10000 := by
  have hmost := Binary64.toInt64_le_of_not_ofInt_lt (c := 10000) (by decide) hshort
  omega

/-- The lines of whole measures, without rounding. -/
theorem exists_of_whole {timing : Timing} {point : TempoPoint} {stop : Int} {line : MeasureLine} {n : Nat}
    (hpos : 0 < n) (hn : n ≤ 2 ^ (33 : Nat)) (hlength : point.measureLength = Binary64.ofInt n)
    (hshort : ¬MarkedAtEnds point stop) (h : line ∈ timing.stretchLines point stop) :
    ∃ k : Nat, k ≤ 2 ^ (14 : Nat) ∧ line.time = point.time + (k * n : Nat) ∧
      line.measure = timing.measureAt point.time + Binary64.ofInt k := by
  obtain ⟨k, hk, rfl⟩ := exists_lineAfter_of_mem_stretchLines hshort h
  have hbound := le_maxMeasures hshort hk
  have hkn : k * n ≤ 2 ^ (14 : Nat) * 2 ^ (33 : Nat) := Nat.mul_le_mul (by omega) hn
  refine ⟨k, by omega, ?_, rfl⟩
  rw [lineAfter, hlength, Binary64.ofNat_mul_ofNat (by omega) (by omega) (by omega),
    Binary64.toInt64_ofNat (by omega)]
  rfl

/-- A line of whole measures stands where the timing measures its millisecond,
when that falls into its stretch or on the tempo point after it. -/
theorem measure_lineAfter {timing : Timing} {before : List TempoStretch} {start : Binary64}
    {point : TempoPoint} {later : List TempoPoint} {n k : Nat}
    (hsplit : timing.stretches.toList = before ++ stretchesFrom start (point :: later))
    (hascending : (point :: later).Pairwise fun a b => a.time < b.time)
    (hlater : ∀ next ∈ later, next.Whole) (hpos : 0 < n) (hn : n ≤ 2 ^ (33 : Nat))
    (hlength : point.measureLength = Binary64.ofInt n) (hk : k ≤ 2 ^ (14 : Nat))
    (hto : ∀ next ∈ later.head?, point.time + (k * n : Nat) ≤ next.time) :
    timing.measureAt point.time + Binary64.ofInt k = timing.measureAt (point.time + (k * n : Nat)) := by
  obtain ⟨hfirst, hrest⟩ := List.pairwise_cons.1 hascending
  have hself := point.measuresTo_time
  rw [measureAt_of_stretchesFrom hsplit (Int.le_refl _) hfirst, hself, Binary64.add_zero_add (by omega)]
  have hmeasures := TempoPoint.measuresTo_of_whole hpos hn hlength hk
  by_cases hlt : ∀ next ∈ later, point.time + (k * n : Nat) < next.time
  · rw [measureAt_of_stretchesFrom hsplit (by omega) hlt, hmeasures]
  · cases later with
    | nil => exact absurd (fun next hmem => by cases hmem) hlt
    | cons next more =>
      -- No later point is reached but the next one, where the line is its first.
      have hreached := hto next rfl
      have hmore := (List.pairwise_cons.1 hrest).1
      have htime : point.time + (k * n : Nat) = next.time := by
        refine Int.le_antisymm hreached (Int.not_lt.1 fun hbefore => hlt fun other hmem => ?_)
        rcases List.mem_cons.1 hmem with rfl | hmem
        · exact hbefore
        · exact Int.lt_trans hbefore (hmore other hmem)
      have hnextself := next.measuresTo_time
      rw [htime, measureAt_of_stretchesFrom (append_stretchesFrom_cons hsplit) (Int.le_refl _) hmore, ← htime,
        hmeasures, htime, hnextself, Binary64.add_ofNat_zero (Binary64.add_ofNat_ne (by omega))]

/-- Where all measures are a whole number of milliseconds long, measure lines
stand where the timing measures their milliseconds. -/
theorem measure_of_mem_measureLines {timing : Timing} {stop : Int} {line : MeasureLine}
    (hchained : timing.Chained) (hwhole : ∀ point ∈ timing.tempoPoints, point.Whole)
    (hnear : ∀ point ∈ timing.tempoPoints, point.time.natAbs ≤ 2 ^ (33 : Nat))
    (h : line ∈ timing.measureLines stop) : line.measure = timing.measureAt line.time := by
  obtain ⟨⟨point, next⟩, hstretch, hline⟩ := mem_measureLines.1 h
  by_cases hlong : MarkedAtEnds point next
  · exact congrArg MeasureLine.measure (eq_lineAt_of_marked hlong hline)
  rw [stretchesTo_eq] at hstretch
  obtain ⟨front, back, hsplit⟩ := List.append_of_mem hstretch
  obtain ⟨earlier, later, hpoints, rfl, -⟩ := split_of_stretchesOf hsplit
  obtain ⟨before, start, hstretches⟩ := stretchesFrom_append 0 earlier later point
  have hascending := timing.tempoPoints_ascending
  rw [hpoints, List.pairwise_append] at hascending
  have hpoint : point ∈ timing.tempoPoints := by simp [hpoints]
  have hlater : ∀ other ∈ later, other ∈ timing.tempoPoints := fun other hmem => by simp [hpoints, hmem]
  obtain ⟨n, hpos, hn, hlength⟩ := hwhole point hpoint
  obtain ⟨k, hk, htime, hmeasure⟩ := exists_of_whole hpos hn hlength hlong hline
  rw [hmeasure, htime]
  refine measure_lineAfter (hchained.trans (hpoints ▸ hstretches)) hascending.2.1
    (fun other hmem => hwhole other (hlater other hmem)) hpos hn hlength hk fun other hother => ?_
  have hmem : other ∈ later := List.mem_of_mem_head? hother
  have hend : endBefore stop later = other.time := by simp [endBefore, Option.mem_def.1 hother]
  have hlt : point.time < other.time := (List.pairwise_cons.1 hascending.2.1).1 other hmem
  have hpointnear := hnear point hpoint
  have hothernear := hnear other (hlater other hmem)
  rw [hend] at hline
  rw [← htime]
  exact le_stop_of_drawsAt (hwhole point hpoint).pos (Int.le_of_lt hlt) (by omega) ⟨line, hline, rfl⟩

end Timing

end ManiaChart
