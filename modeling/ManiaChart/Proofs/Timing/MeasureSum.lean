/-
Measure positions as sums. A timing keeps the position where each stretch starts
and looks up the stretch of a time. That is the same as adding up the measures of
one tempo point after another (`Timing.measuresOver`), operation by operation in the
order of time, so the result is the same number whatever the operations round to
(`Timing.exists_walk_eq`).

The look-up and the sum meet in a walk along the tempo points that stops before the
first one past the time (`Timing.walk`).
-/
import ManiaChart.Proofs.Timing.MeasurePosition

namespace ManiaChart.Timing

/-- The measures from the first of some tempo points to the last one: each point's
up to the next are added to `start`, in the order of time. -/
def measuresOver (start : Binary64) (points : List TempoPoint) : Binary64 :=
  (points.zip points.tail).foldl (fun sum (point, next) => sum + point.measuresTo next.time) start

/-- The position of a time, walking from the first of some tempo points, which is at
`start`, to the last one that is not after the time. -/
def walk (start : Binary64) (points : List TempoPoint) (t : Int) : Binary64 :=
  match points with
  | [] => start
  | [point] => start + point.measuresTo t
  | point :: next :: rest =>
    if next.time ≤ t then walk (start + point.measuresTo next.time) (next :: rest) t
    else start + point.measuresTo t

/-- Before the second of some tempo points no later one is reached. -/
theorem lt_of_mem_later {point next : TempoPoint} {rest : List TempoPoint} {t : Int}
    (hascending : (point :: next :: rest).Pairwise fun a b => a.time < b.time) (hlt : t < next.time) :
    ∀ other ∈ next :: rest, t < other.time := by
  intro other hmem
  rcases List.mem_cons.1 hmem with rfl | hmem
  · exact hlt
  · exact Int.lt_trans hlt ((List.pairwise_cons.1 (List.pairwise_cons.1 hascending).2).1 other hmem)

/-! ## The look-up walks -/

section

variable {timing : Timing} {before : List TempoStretch} {start : Binary64} {t : Int}

theorem measureAt_of_active {point : TempoPoint} {later : List TempoPoint}
    (hsplit : timing.stretches.toList = before ++ stretchesFrom start (point :: later))
    (hfirst : before = [] ∨ point.time ≤ t) (hlt : ∀ next ∈ later, t < next.time) :
    timing.measureAt t = start + point.measuresTo t := by
  rcases hfirst with rfl | hle
  · exact measureAt_of_first hsplit hlt
  · exact measureAt_of_stretchesFrom hsplit hle hlt

/-- What is looked up is found by walking there, from a tempo point that is not after
the time or from the first one of all. -/
theorem measureAt_eq_walk {points : List TempoPoint}
    (hsplit : timing.stretches.toList = before ++ stretchesFrom start points)
    (hpoints : points ≠ []) (hascending : points.Pairwise fun a b => a.time < b.time)
    (hfirst : before = [] ∨ ∀ point ∈ points.head?, point.time ≤ t) : timing.measureAt t = walk start points t := by
  fun_induction walk start points t generalizing before with
  | case1 => exact absurd rfl hpoints
  | case2 start point =>
    exact measureAt_of_active hsplit (hfirst.imp_right fun hall => hall point rfl) fun next hmem => by cases hmem
  | case3 start point next rest hnext ih =>
    refine ih (append_stretchesFrom_cons hsplit) (List.cons_ne_nil _ _) (List.pairwise_cons.1 hascending).2
      (.inr fun other hother => ?_)
    cases hother
    exact hnext
  | case4 start point next rest hnext =>
    exact measureAt_of_active hsplit (hfirst.imp_right fun hall => hall point rfl)
      (lt_of_mem_later hascending (Int.not_le.1 hnext))

end

theorem tempoPoints_ne_nil (timing : Timing) : timing.tempoPoints ≠ [] := by
  have hsize := timing.size_pos
  intro hnil
  rw [tempoPoints, List.map_eq_nil_iff] at hnil
  have hlength := congrArg List.length hnil
  simp only [Array.length_toList, List.length_nil] at hlength
  omega

theorem Chained.measureAt_eq_walk {timing : Timing} (hchained : timing.Chained) (t : Int) :
    timing.measureAt t = walk 0 timing.tempoPoints t :=
  Timing.measureAt_eq_walk (hchained.trans (List.nil_append _).symm) timing.tempoPoints_ne_nil
    timing.tempoPoints_ascending (.inl rfl)

/-! ## The walk adds up -/

section

variable {start : Binary64} {points : List TempoPoint} {t : Int}

/-- The tempo points that are not after a time, when at most the first one is not. -/
theorem filter_of_lt_later {point : TempoPoint} {later : List TempoPoint} (h : ∀ next ∈ later, t < next.time) :
    (point :: later).filter (·.time ≤ t) = if point.time ≤ t then [point] else [] := by
  have hlater : later.filter (·.time ≤ t) = [] :=
    List.filter_eq_nil_iff.2 fun next hmem => by simpa using h next hmem
  rw [List.filter_cons, hlater]
  simp only [decide_eq_true_eq]

/-- With at most one point passed, nothing is added to the start. -/
theorem active_of_lt_later (start : Binary64) {point : TempoPoint} {later : List TempoPoint}
    (h : ∀ next ∈ later, t < next.time) :
    ((point :: later).filter (·.time ≤ t)).getLast?.or (some point) = some point ∧
      measuresOver start ((point :: later).filter (·.time ≤ t)) = start := by
  rw [filter_of_lt_later h]
  split <;> exact ⟨rfl, rfl⟩

/-- A walk adds up the measures over the tempo points that are not after the time, and
those since the last of them. -/
theorem exists_walk_eq (start : Binary64) (hpoints : points ≠ [])
    (hascending : points.Pairwise fun a b => a.time < b.time) :
    ∃ point, (points.filter (·.time ≤ t)).getLast?.or points.head? = some point ∧
      walk start points t = measuresOver start (points.filter (·.time ≤ t)) + point.measuresTo t := by
  fun_induction walk start points t with
  | case1 => exact absurd rfl hpoints
  | case2 start point =>
    have hlater : ∀ next ∈ ([] : List TempoPoint), t < next.time := fun _ hmem => absurd hmem List.not_mem_nil
    exact ⟨point, (active_of_lt_later start hlater).1, by rw [(active_of_lt_later start hlater).2]⟩
  | case3 start point next rest hnext ih =>
    obtain ⟨hbefore, hlater⟩ := List.pairwise_cons.1 hascending
    obtain ⟨active, hactive, hwalk⟩ := ih (List.cons_ne_nil _ _) hlater
    have hreached : point.time ≤ t := Int.le_of_lt (Int.lt_of_lt_of_le (hbefore next List.mem_cons_self) hnext)
    rw [List.filter_cons_of_pos (by simpa using hnext)] at hactive hwalk
    rw [List.filter_cons_of_pos (by simpa using hreached), List.filter_cons_of_pos (by simpa using hnext)]
    refine ⟨active, ?_, hwalk⟩
    rw [List.getLast?_cons, Option.some_or] at hactive
    rw [List.getLast?_cons_cons, List.getLast?_cons, Option.some_or, hactive]
  | case4 start point next rest hnext =>
    obtain ⟨hactive, hsum⟩ := active_of_lt_later start (lt_of_mem_later hascending (Int.not_le.1 hnext))
    exact ⟨point, hactive, by rw [hsum]⟩

end

/-- **Measure positions are sums.** With the tempo points up to a time, the position of
the time is what each of them adds up to the next one, from zero and in this order,
and what the last of them adds up to the time. Before all tempo points it is what the
first one adds. -/
theorem measureAt_eq_sum {offset : Int} {points : List TimingPoint} {timing : Timing} {skipped : List Int}
    (h : ofPoints? offset points = some (timing, skipped)) (t : Int) :
    ∃ point, (timing.tempoPoints.filter (·.time ≤ t)).getLast?.or timing.tempoPoints.head? = some point ∧
      timing.measureAt t = measuresOver 0 (timing.tempoPoints.filter (·.time ≤ t)) + point.measuresTo t := by
  rw [(chained_of_ofPoints? h).measureAt_eq_walk]
  exact exists_walk_eq 0 timing.tempoPoints_ne_nil timing.tempoPoints_ascending

/-- Three tempos, each one faster than the one before it. -/
def quickening : List TimingPoint :=
  [{ time := 0, beatLength := 500 }, { time := 1000, beatLength := 400 }, { time := 3000, beatLength := 300 }]

theorem measureAt_eq_sum_quickening :
    ∃ timing skipped,
      ofPoints? 0 quickening = some (timing, skipped) ∧
      timing.tempoPoints = [⟨0, 500⟩, ⟨1000, 400⟩, ⟨3000, 300⟩] ∧
      timing.measureAt 4000 = 0 + 1000 / 2000 + 2000 / 1600 + 1000 / 1200 := by
  have hmade : (ofPoints? 0 quickening).any
      (fun made => decide (made.1.tempoPoints = [⟨0, 500⟩, ⟨1000, 400⟩, ⟨3000, 300⟩])) = true := by decide +kernel
  obtain ⟨⟨timing, skipped⟩, hmade, htempo⟩ := (Option.any_eq_true ..).1 hmade
  obtain ⟨point, hactive, hsum⟩ := measureAt_eq_sum hmade 4000
  simp only [decide_eq_true_eq] at htempo
  rw [htempo] at hactive hsum
  cases hactive
  exact ⟨timing, skipped, hmade, htempo, hsum.trans (by decide +kernel)⟩

end ManiaChart.Timing
