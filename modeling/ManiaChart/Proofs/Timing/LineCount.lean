/-
How many measure lines a chart has. A stretch of more than 10000 measures has
two, at its ends; any other has one for each number up to the whole part of its
measures, and so at most 10001 (`Timing.exists_count`). A beat length may
be negative, zero, infinite or not a number: the measures of a stretch are a
quotient of any kind then, but its whole part is still told by comparisons
(`Binary64.le_toInt64_iff`, `toInt64_nonneg_iff`).
-/
import ManiaChart.Proofs.Timing.LastStretch

namespace ManiaChart

/-! ## Whole parts told by comparisons -/

namespace Binary64

variable {a : Binary64} {k : Nat}

/-- A number with a positive whole part is not negative. -/
theorem nonneg_of_toInt64_pos (h : 0 < a.toInt64) : 0 ≤ a := by
  obtain ⟨s, hsigned⟩ := exists_signed a
  cases s with
  | true => exact absurd h (Int.not_lt.2 hsigned.toInt64_nonpos)
  | false =>
    cases hsigned with
    | nan => exact absurd h (by decide)
    | infinity => exact nonneg_iff.2 ⟨limit, rfl, Int.natCast_nonneg _⟩
    | finite m => exact nonneg_iff.2 ⟨m.units, rfl, Int.natCast_nonneg _⟩

theorem le_toInt64_iff (hpos : 0 < k) (hk : k ≤ 2 ^ (53 : Nat)) : (k : Int) ≤ a.toInt64 ↔ ofInt k ≤ a := by
  refine ⟨fun h => ofNat_le_of_le_toInt64 hk (nonneg_of_toInt64_pos (by omega)) h, fun h => ?_⟩
  rw [← toInt64_ofNat hk]
  exact toInt64_mono h

/-- Less than a whole below zero, the whole part is zero. -/
theorem le_neg_of_tdiv_neg {x unit : Int} (hunit : 0 < unit) (h : x.tdiv unit < 0) : x ≤ -unit := by
  refine Int.not_lt.1 fun hlt => ?_
  by_cases hx : x < 0
  · have hless : (-x).tdiv unit = 0 := Int.tdiv_eq_zero_of_lt (by omega) (by omega)
    rw [Int.neg_tdiv] at hless
    omega
  · exact absurd h (Int.not_lt.2 (Int.tdiv_nonneg (Int.not_lt.1 hx) (Int.le_of_lt hunit)))

/-- A fraction is dropped toward zero, so only from minus one down a whole part
is negative. -/
theorem toInt64_nonneg_iff : 0 ≤ a.toInt64 ↔ ¬a ≤ -1 := by
  have hone : (-1 : Binary64).toInt64 = -1 := by decide +kernel
  constructor
  · intro h hle
    have hmono := toInt64_mono hle
    omega
  · intro h
    refine Int.not_lt.1 fun hneg => h ?_
    cases hplace : a.position with
    | none =>
      cases a with
      | nan => exact absurd hneg (by decide)
      | infinity | finite => cases hplace
    | some x =>
      have hunits : (-1 : Binary64).position = some (-(1 : Nat) * (unitsPerOne : Int)) := by
        rw [show (1 : Binary64) = ofInt (1 : Nat) from rfl, ← ofInt_neg Nat.one_pos]
        exact position_ofInt_of_le (by decide)
      rw [toInt64_eq hplace] at hneg
      have hbelow := le_neg_of_tdiv_neg (x := x) (Int.natCast_pos.2 unitsPerOne_pos) (by omega)
      exact (le_iff hplace hunits).2 (by omega)

end Binary64

/-! ## Stretches -/

/-- The measures from a tempo point to a time as a plain quotient, whatever the
length of a measure is. -/
def TempoPoint.quotientTo (point : TempoPoint) (t : Int) : Binary64 :=
  Binary64.ofInt (t - point.time) / point.measureLength

namespace Timing

variable {point : TempoPoint} {stop : Int}

/-- The lines of a stretch that is not marked at its ends have the numbers from
zero to the whole part of its measures: zero unless it spans a measure or more
backwards, and any other one that its measures reach. -/
theorem exists_count (timing : Timing) (hshort : ¬MarkedAtEnds point stop) :
    ∃ count ≤ 10001,
      timing.stretchLines point stop =
        (List.range count).map (timing.lineAfter (timing.startLine point) point.measureLength) ∧
      ∀ k : Nat, (k < count ↔ (k : Int) ≤ (point.quotientTo stop).toInt64) ∧
        (k < count ↔ if k = 0 then ¬point.quotientTo stop ≤ -1 else Binary64.ofInt k ≤ point.quotientTo stop) := by
  have hmost : point.wholeMeasuresTo stop ≤ 10000 := Binary64.toInt64_le_of_not_ofInt_lt (by decide) hshort
  have hcount : ∀ k : Nat,
      k < (point.wholeMeasuresTo stop + 1).toNat ↔ (k : Int) ≤ (point.quotientTo stop).toInt64 := by
    intro k
    show _ ↔ (k : Int) ≤ point.wholeMeasuresTo stop
    omega
  refine ⟨_, by omega, stretchLines_of_short hshort, fun k => ⟨hcount k, (hcount k).trans ?_⟩⟩
  rcases Nat.eq_zero_or_pos k with rfl | hpos
  · rw [if_pos rfl]
    exact Binary64.toInt64_nonneg_iff
  rw [if_neg (Nat.ne_of_gt hpos)]
  by_cases hk : k ≤ 2 ^ (53 : Nat)
  · exact Binary64.le_toInt64_iff hpos hk
  · -- Such a number is past all measures that are not too many for lines.
    have hpast : ¬(k : Int) ≤ point.wholeMeasuresTo stop := by omega
    refine ⟨fun h => absurd h hpast, fun h => ?_⟩
    have hless : Binary64.ofInt (10001 : Nat) ≤ Binary64.ofInt k := Binary64.ofInt_le_ofInt (by omega)
    have hmono : (Binary64.ofInt (10001 : Nat)).toInt64 ≤ point.wholeMeasuresTo stop :=
      Binary64.toInt64_mono (Binary64.le_trans hless h)
    rw [Binary64.toInt64_ofNat (by decide)] at hmono
    omega

theorem length_stretchLines_le (timing : Timing) (point : TempoPoint) (stop : Int) :
    (timing.stretchLines point stop).length ≤ 10001 := by
  by_cases hlong : MarkedAtEnds point stop
  · rw [stretchLines_of_marked hlong, List.length_cons, List.length_singleton]
    decide
  · obtain ⟨count, hcount, hlines, -⟩ := exists_count timing hlong
    rw [hlines, List.length_map, List.length_range]
    exact hcount

theorem length_linesOf_le (timing : Timing) (stop : Int) (points : List TempoPoint) :
    (timing.linesOf stop points).length ≤ 10001 * points.length := by
  induction points with
  | nil => exact Nat.le_refl 0
  | cons point later ih =>
    have hfirst := timing.length_stretchLines_le point (endBefore stop later)
    have hlines : timing.linesOf stop (point :: later) =
        timing.stretchLines point (endBefore stop later) ++ timing.linesOf stop later := rfl
    rw [hlines, List.length_append, List.length_cons]
    omega

/-- **Measure lines are few**, whatever the tempos are. Each tempo point has one
stretch, and the lines of a chart are those of its stretches. A stretch of more
than 10000 measures has a line at each of its ends, with what is active there; any
other has one for each number up to the whole part of its measures. -/
theorem measureLines_bounded (timing : Timing) (stop : Int) :
    timing.measureLines stop =
        ((timing.stretchesTo stop).flatMap fun stretch => timing.stretchLines stretch.1 stretch.2) ∧
      (timing.stretchesTo stop).map Prod.fst = timing.tempoPoints ∧
      (∀ point stop', (point, stop') ∈ timing.stretchesTo stop →
        Binary64.ofInt (10000 : Nat) < point.quotientTo stop' ∧
            timing.stretchLines point stop' = [timing.lineAt point.time, timing.lineAt stop'] ∨
          ¬Binary64.ofInt (10000 : Nat) < point.quotientTo stop' ∧ ∃ count ≤ 10001,
            timing.stretchLines point stop' =
              (List.range count).map (timing.lineAfter (timing.startLine point) point.measureLength) ∧
            ∀ k : Nat, (k < count ↔ (k : Int) ≤ (point.quotientTo stop').toInt64) ∧
              (k < count ↔
                if k = 0 then ¬point.quotientTo stop' ≤ -1 else Binary64.ofInt k ≤ point.quotientTo stop')) ∧
      (timing.measureLines stop).length ≤ 10001 * timing.tempoPoints.length := by
  refine ⟨rfl, ?_, fun point stop' _ => ?_, ?_⟩
  · rw [stretchesTo_eq, map_fst_stretchesOf]
  · by_cases hlong : MarkedAtEnds point stop'
    · exact .inl ⟨hlong, stretchLines_of_marked hlong⟩
    · exact .inr ⟨hlong, exists_count timing hlong⟩
  · rw [measureLines_eq_linesOf]
    exact timing.length_linesOf_le stop timing.tempoPoints

/-- Beats of no length: no span is not a number of measures, a span is infinitely
many, forwards or backwards. -/
example : (ofPoints? 0 [{ time := 0, beatLength := 0 }]).map (fun made =>
    [0, 3000, -3000].map fun stop => (made.1.measureLines stop).length) = some [1, 2, 0] := by decide +kernel

end Timing

end ManiaChart
