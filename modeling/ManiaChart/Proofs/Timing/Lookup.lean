/-
Looking up a series, told without the search: in a sorted array the points up
to `countUpTo` are not after the time and those from there on are
(`countUpTo_spec`).

For a timing this means that a tempo point is the active one from its own
millisecond on until the next one (`tempoAt_of_split`), and that a scroll point
is the active one at its own millisecond (`scrollAt_scrollPoint`).
-/
import ManiaChart.Timing.Basic

namespace ManiaChart

namespace Timed

variable {α : Type} [Timed α]

/-- A series in order of time. -/
def Sorted (points : Array α) : Prop := points.toList.Pairwise fun a b => time a ≤ time b

theorem Sorted.le {points : Array α} (hs : Sorted points) {i j : Nat} (hij : i ≤ j)
    (hj : j < points.size) : time points[i] ≤ time points[j] := by
  by_cases heq : i = j
  · subst heq
    exact Int.le_refl _
  · have h := List.pairwise_iff_getElem.1 hs i j (by rw [Array.length_toList]; omega) hj (by omega)
    simpa only [Array.getElem_toList] using h

/-- The result of the halving parts the series, when all before `lo` is not
after `t` and all from `hi` on is. -/
theorem bisect_parts {points : Array α} (hs : Sorted points) (t : Int) (lo hi : Nat)
    (h : hi ≤ points.size) (hle : lo ≤ hi)
    (hlo : ∀ i (hl : i < points.size), i < lo → time points[i] ≤ t)
    (hhi : ∀ i (hl : i < points.size), hi ≤ i → t < time points[i]) :
    (∀ i (hl : i < points.size), i < bisect points t lo hi h → time points[i] ≤ t) ∧
      ∀ i (hl : i < points.size), bisect points t lo hi h ≤ i → t < time points[i] := by
  fun_induction bisect points t lo hi h with
  | case1 lo hi h hlt middle hmid ih =>
    refine ih (by omega) (fun i hl hi' => ?_) hhi
    exact Int.le_trans (hs.le (by omega) (by omega)) hmid
  | case2 lo hi h hlt middle hmid ih =>
    refine ih (by omega) hlo fun i hl hi' => ?_
    exact Int.lt_of_lt_of_le (Int.not_le.1 hmid) (hs.le hi' hl)
  | case3 lo hi h hlt =>
    have heq : lo = hi := by omega
    subst heq
    exact ⟨hlo, hhi⟩

theorem countUpTo_spec {points : Array α} (hs : Sorted points) (t : Int) {i : Nat}
    (hi : i < points.size) : i < countUpTo points t ↔ time points[i] ≤ t := by
  have hparts := bisect_parts hs t 0 points.size (Nat.le_refl _) (Nat.zero_le _)
    (fun _ _ h => absurd h (Nat.not_lt_zero _)) (fun _ hl h => absurd hl (Nat.not_lt.2 h))
  refine ⟨?_, ?_⟩
  · exact hparts.1 i hi
  · intro hle
    by_cases hlt : i < countUpTo points t
    · exact hlt
    · exact absurd hle (Int.not_le.2 (hparts.2 i hi (Nat.not_lt.1 hlt)))

/-- A point that no later one shares the time of is the active one there. -/
theorem countUpTo_time {points : Array α} (hs : points.toList.Pairwise fun a b => time a < time b)
    {i : Nat} (hi : i < points.size) : countUpTo points (time points[i]) = i + 1 := by
  have hsorted : Sorted points := hs.imp Int.le_of_lt
  have hle := countUpTo_le points (time points[i])
  have hmem : i < countUpTo points (time points[i]) := (countUpTo_spec hsorted _ hi).2 (Int.le_refl _)
  by_cases hnext : i + 1 < countUpTo points (time points[i])
  · have hsize : i + 1 < points.size := Nat.lt_of_lt_of_le hnext hle
    have hback := (countUpTo_spec hsorted _ hsize).1 hnext
    have hlt := List.pairwise_iff_getElem.1 hs i (i + 1) (by simpa using hi) (by simpa using hsize)
      (Nat.lt_succ_self i)
    simp only [Array.getElem_toList] at hlt
    exact absurd hback (Int.not_le.2 hlt)
  · omega

/-- The points that are not after a time are those that are counted. -/
theorem filter_eq_take {points : Array α} (hs : Sorted points) (t : Int) :
    points.toList.filter (time · ≤ t) = points.toList.take (countUpTo points t) := by
  have htake : (points.toList.take (countUpTo points t)).filter (time · ≤ t) =
      points.toList.take (countUpTo points t) := by
    refine List.filter_eq_self.2 fun point hmem => ?_
    obtain ⟨i, hi, rfl⟩ := List.mem_take_iff_getElem.1 hmem
    have hsize : i < points.size := by
      rw [← Array.length_toList]
      omega
    simpa using (countUpTo_spec hs t hsize).1 (by omega)
  have hdrop : (points.toList.drop (countUpTo points t)).filter (time · ≤ t) = [] := by
    refine List.filter_eq_nil_iff.2 fun point hmem => ?_
    obtain ⟨i, hi, rfl⟩ := List.mem_drop_iff_getElem.1 hmem
    have hsize : countUpTo points t + i < points.size := by
      rw [← Array.length_toList]
      omega
    have hspec := (countUpTo_spec hs t hsize).2
    simp only [Array.getElem_toList, decide_eq_true_eq]
    omega
  rw [← List.take_append_drop (countUpTo points t) points.toList, List.filter_append, htake, hdrop,
    List.append_nil, List.take_append_drop]

/-- **The active point** is the last one that is not after the time, or the first
one when all are. -/
theorem active?_eq {points : Array α} (hs : Sorted points) (t : Int) :
    active? points t = (points.toList.filter (time · ≤ t)).getLast?.or points.toList.head? := by
  have hle := countUpTo_le points t
  rw [filter_eq_take hs, List.getLast?_take]
  by_cases hzero : countUpTo points t = 0
  · simp [active?, hzero, List.head?_eq_getElem?]
  · have hlt : countUpTo points t - 1 < points.size := by omega
    simp [active?, hzero, hlt]

end Timed

namespace Timing

theorem tempoPoints_ascending (timing : Timing) :
    timing.tempoPoints.Pairwise fun a b => a.time < b.time :=
  List.pairwise_map.2 timing.stretches_ordered

/-- From its tempo point on, until the next one, times fall into a stretch. -/
theorem stretchAt_of_split {timing : Timing} {before after : List TempoStretch}
    {stretch : TempoStretch} {t : Int} (hsplit : timing.stretches.toList = before ++ stretch :: after)
    (hle : stretch.point.time ≤ t) (hlt : ∀ next ∈ after, t < next.point.time) :
    timing.stretchAt t = stretch := by
  have hsorted : Timed.Sorted timing.stretches := timing.stretches_ordered.imp Int.le_of_lt
  have hstretch : ∀ i (hi : i < timing.stretches.size),
      (before ++ stretch :: after)[i]? = some timing.stretches[i] := by
    intro i hi
    rw [← hsplit]
    simp [hi]
  have hsize : before.length < timing.stretches.size := by
    have hlength := congrArg List.length hsplit
    simp only [Array.length_toList, List.length_append, List.length_cons] at hlength
    omega
  have hself : timing.stretches[before.length] = stretch := by
    simpa using (hstretch before.length hsize).symm
  have hcount : Timed.countUpTo timing.stretches t = before.length + 1 := by
    have hmem : before.length < Timed.countUpTo timing.stretches t :=
      (Timed.countUpTo_spec hsorted t hsize).2 (by rw [hself]; exact hle)
    have hbound := Timed.countUpTo_le timing.stretches t
    apply Decidable.byContradiction
    intro hne
    have hnext : before.length + 1 < Timed.countUpTo timing.stretches t := by omega
    have hnextsize : before.length + 1 < timing.stretches.size := by omega
    have hback := (Timed.countUpTo_spec hsorted t hnextsize).1 hnext
    have hmemafter : timing.stretches[before.length + 1] ∈ after := by
      have hget := hstretch (before.length + 1) hnextsize
      rw [List.getElem?_append_right (by omega), Nat.add_sub_cancel_left, List.getElem?_cons_succ] at hget
      exact List.mem_of_getElem? hget
    exact absurd hback (Int.not_le.2 (hlt _ hmemafter))
  simp only [stretchAt, hcount, Nat.add_sub_cancel, hself]

/-- All times before the second stretch fall into the first one. -/
theorem stretchAt_of_first {timing : Timing} {stretch : TempoStretch} {after : List TempoStretch} {t : Int}
    (hsplit : timing.stretches.toList = stretch :: after) (hlt : ∀ next ∈ after, t < next.point.time) :
    timing.stretchAt t = stretch := by
  by_cases hle : stretch.point.time ≤ t
  · exact stretchAt_of_split (hsplit.trans (List.nil_append _).symm) hle hlt
  · have hsorted : Timed.Sorted timing.stretches := timing.stretches_ordered.imp Int.le_of_lt
    have hsize := timing.size_pos
    have hfirst : timing.stretches[0] = stretch := by
      simp only [← Array.getElem_toList, hsplit, List.getElem_cons_zero]
    have hcount : Timed.countUpTo timing.stretches t = 0 := by
      refine Nat.eq_zero_of_not_pos fun hpos => hle ?_
      have hreached := (Timed.countUpTo_spec hsorted t hsize).1 hpos
      rwa [hfirst] at hreached
    simp only [stretchAt, hcount, Nat.zero_sub, hfirst]

/-- From a tempo point on, until the next one, it is the active one. -/
theorem tempoAt_of_split {timing : Timing} {before after : List TempoPoint} {point : TempoPoint}
    {t : Int} (hsplit : timing.tempoPoints = before ++ point :: after) (hle : point.time ≤ t)
    (hlt : ∀ next ∈ after, t < next.time) : timing.tempoAt t = point := by
  obtain ⟨front, rest, hstretches, -, hrest⟩ := List.map_eq_append_iff.1 hsplit
  obtain ⟨stretch, back, rfl, rfl, rfl⟩ := List.map_eq_cons_iff.1 hrest
  rw [tempoAt, stretchAt_of_split hstretches hle fun next hmem => hlt next.point (List.mem_map_of_mem hmem)]

theorem tempoAt_tempoPoint {timing : Timing} {point : TempoPoint} (h : point ∈ timing.tempoPoints) :
    timing.tempoAt point.time = point := by
  obtain ⟨before, after, hsplit⟩ := List.append_of_mem h
  have hascending := timing.tempoPoints_ascending
  rw [hsplit, List.pairwise_append] at hascending
  exact tempoAt_of_split hsplit (Int.le_refl _) (List.pairwise_cons.1 hascending.2.1).1

theorem bpmAt_tempoPoint {timing : Timing} {point : TempoPoint} (h : point ∈ timing.tempoPoints) :
    timing.bpmAt point.time = point.bpm := by
  rw [bpmAt, tempoAt_tempoPoint h]

theorem scrollAt_scrollPoint {timing : Timing} {point : ScrollPoint}
    (h : point ∈ timing.scrollPoints.toList) : timing.scrollAt point.time = point.multiplier := by
  obtain ⟨i, hi, rfl⟩ := Array.mem_iff_getElem.1 (Array.mem_toList_iff.1 h)
  have hcount : Timed.countUpTo timing.scrollPoints timing.scrollPoints[i].time = i + 1 :=
    Timed.countUpTo_time timing.scrollPoints_ordered hi
  simp only [scrollAt, Timed.active?, hcount, Nat.add_sub_cancel, Array.getElem?_eq_getElem hi]

end Timing

end ManiaChart
