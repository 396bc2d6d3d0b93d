/-
Measure positions never run backwards. A position is counted in two ways: from
the exact millisecond (`TempoPoint.measuresTo`), or as the number of a measure
line, whose millisecond is rounded. Within a stretch of one tempo both keep the
order (`TempoPoint.Counts.le`), since the number of a line lies between the
positions of the milliseconds beside it; and no position passes the one where
the next stretch starts (`Timing.CountedFrom.le`).
-/
import ManiaChart.Proofs.Binary64.Order
import ManiaChart.Proofs.Timing.MeasureSum

namespace ManiaChart

/-! ## Within a stretch -/

namespace TempoPoint

/-- Whether the measures of a tempo point have a positive length, and its time 33
binary digits. -/
structure Paced (point : TempoPoint) : Prop where
  pos : 0 < point.measureLength
  near : point.time.natAbs ≤ 2 ^ (33 : Nat)

/-- What may be counted as the measures from a tempo point to a time: its exact
position, or the number of a measure line drawn there. -/
inductive Counts (point : TempoPoint) : Int → Binary64 → Prop
  | position (t : Int) : Counts point t (point.measuresTo t)
  | line (k : Nat) : k ≤ 10000 →
    Counts point (point.time + (Binary64.ofInt k * point.measureLength).toInt64) (Binary64.ofInt k)

variable {point : TempoPoint} {t t' : Int} {x x' : Binary64}

theorem Paced.natAbs_sub_le (h : point.Paced) (ht : t.natAbs ≤ 2 ^ (33 : Nat)) :
    (t - point.time).natAbs ≤ 2 ^ (64 : Nat) := by
  have hnear := h.near
  omega

/-- Measures do not fall from a time to a later one, whatever the tempo is. -/
theorem measuresTo_mono (ht : (t - point.time).natAbs ≤ 2 ^ (64 : Nat))
    (ht' : (t' - point.time).natAbs ≤ 2 ^ (64 : Nat)) (h : t ≤ t') : point.measuresTo t ≤ point.measuresTo t' := by
  by_cases hpos : 0 < point.measureLength
  · rw [measuresTo_eq hpos, measuresTo_eq hpos]
    exact Binary64.ofInt_div_mono hpos ht ht' (by omega)
  · rw [measuresTo, measuresTo, if_neg hpos, if_neg hpos]
    exact Binary64.zero_le_zero

theorem measuresTo_nonneg (ht : (t - point.time).natAbs ≤ 2 ^ (64 : Nat)) (h : point.time ≤ t) :
    0 ≤ point.measuresTo t := by
  have hmono : point.measuresTo point.time ≤ point.measuresTo t := measuresTo_mono (by simp) ht h
  rwa [measuresTo_time] at hmono

namespace Counts

theorem nonneg (h : point.Counts t x) (hpaced : point.Paced) (ht : t.natAbs ≤ 2 ^ (33 : Nat))
    (hle : point.time ≤ t) : 0 ≤ x := by
  cases h with
  | position => exact measuresTo_nonneg (hpaced.natAbs_sub_le ht) hle
  | line k hk => exact Binary64.ofInt_le_ofInt (Int.natCast_nonneg k)

/-- **Within a stretch** the count does not fall from a time to a later one. -/
theorem le (h : point.Counts t x) (h' : point.Counts t' x') (hpaced : point.Paced)
    (ht : t.natAbs ≤ 2 ^ (33 : Nat)) (ht' : t'.natAbs ≤ 2 ^ (33 : Nat)) (hlt : t < t') : x ≤ x' := by
  have hnear := hpaced.near
  cases h with
  | position =>
    cases h' with
    | position => exact measuresTo_mono (hpaced.natAbs_sub_le ht) (hpaced.natAbs_sub_le ht') (Int.le_of_lt hlt)
    | line k hk =>
      rw [measuresTo_eq hpaced.pos]
      exact Binary64.ofInt_div_le_ofNat hpaced.pos (by omega) (by omega) (by omega)
  | line k hk =>
    cases h' with
    | position =>
      rw [measuresTo_eq hpaced.pos]
      exact Binary64.ofNat_le_ofInt_div hpaced.pos (by omega) (by omega) (by omega)
    | line k' hk' =>
      -- Of two lines the later one has the greater number.
      have hnumber : k ≤ k' := by
        refine Nat.le_of_not_lt fun hback => ?_
        have hmono := Binary64.toInt64_mul_mono hpaced.pos (by omega) (Nat.le_of_lt hback)
        omega
      exact Binary64.ofInt_le_ofInt (Int.ofNat_le.2 hnumber)

end Counts

end TempoPoint

/-! ## From stretch to stretch -/

namespace Timing

/-- What may be counted as the measure position of a time, when the first of some
tempo points starts at the position `start`: the count of one of them from where
it starts, up to the next one. -/
inductive CountedFrom : Binary64 → List TempoPoint → Int → Binary64 → Prop
  | here {start : Binary64} {point : TempoPoint} {later : List TempoPoint} {t : Int} {x : Binary64} :
    point.Counts t x → (∀ next ∈ later.head?, t ≤ next.time ∧ x ≤ point.measuresTo next.time) →
    CountedFrom start (point :: later) t (start + x)
  | later {start : Binary64} {point next : TempoPoint} {rest : List TempoPoint} {t : Int} {m : Binary64} :
    next.time ≤ t → CountedFrom (start + point.measuresTo next.time) (next :: rest) t m →
    CountedFrom start (point :: next :: rest) t m

namespace CountedFrom

variable {start m m' : Binary64} {points : List TempoPoint} {t t' : Int}

theorem start_grows {point next : TempoPoint} {rest : List TempoPoint} (hstart : 0 ≤ start)
    (hpaced : ∀ other ∈ point :: next :: rest, other.Paced)
    (hascending : (point :: next :: rest).Pairwise fun a b => a.time < b.time) :
    start ≤ start + point.measuresTo next.time := by
  have hnext := hpaced next (by simp)
  have hlt := (List.pairwise_cons.1 hascending).1 next List.mem_cons_self
  exact Binary64.le_add hstart
    (TempoPoint.measuresTo_nonneg ((hpaced point List.mem_cons_self).natAbs_sub_le hnext.near) (Int.le_of_lt hlt))

/-- From the first tempo point on, no position is before its start. -/
theorem start_le (h : CountedFrom start points t m) (hstart : 0 ≤ start)
    (hpaced : ∀ point ∈ points, point.Paced) (hascending : points.Pairwise fun a b => a.time < b.time)
    (ht : t.natAbs ≤ 2 ^ (33 : Nat)) (hfirst : ∀ point ∈ points.head?, point.time ≤ t) : start ≤ m := by
  induction h with
  | here hcounts hnext =>
    exact Binary64.le_add hstart (hcounts.nonneg (hpaced _ List.mem_cons_self) ht (hfirst _ rfl))
  | @later start point next rest t m hle hlater ih =>
    have hgrown := start_grows hstart hpaced hascending
    refine Binary64.le_trans hgrown (ih (Binary64.le_trans hstart hgrown)
      (List.forall_mem_cons.1 hpaced).2 (List.pairwise_cons.1 hascending).2 ht
      fun other hother => ?_)
    cases hother
    exact hle

/-- A sum grows with the count. Before the tempo point the count may be
negative; the start is zero then. -/
theorem add_mono {point : TempoPoint} {x y : Binary64} (hcounts : point.Counts t x) (hpaced : point.Paced)
    (ht : t.natAbs ≤ 2 ^ (33 : Nat)) (hstart : 0 ≤ start) (hfirst : start = 0 ∨ point.time ≤ t) (hle : x ≤ y) :
    start + x ≤ start + y := by
  rcases hfirst with hzero | hafter
  · rw [hzero]
    exact Binary64.zero_add_le_zero_add hle
  · exact Binary64.add_le_add_left hstart (hcounts.nonneg hpaced ht hafter) hle

/-- **From stretch to stretch** positions do not fall from a time to a later
one. -/
theorem le (h : CountedFrom start points t m) (h' : CountedFrom start points t' m') (hlt : t < t')
    (hstart : 0 ≤ start) (hfirst : start = 0 ∨ ∀ point ∈ points.head?, point.time ≤ t)
    (hpaced : ∀ point ∈ points, point.Paced) (hascending : points.Pairwise fun a b => a.time < b.time)
    (ht : t.natAbs ≤ 2 ^ (33 : Nat)) (ht' : t'.natAbs ≤ 2 ^ (33 : Nat)) : m ≤ m' := by
  induction h with
  | @here start point later t x hcounts hnext =>
    have hpoint := hpaced point List.mem_cons_self
    have hzero : start = 0 ∨ point.time ≤ t := hfirst.imp_right fun hall => hall point rfl
    cases h' with
    | here hcounts' hnext' =>
      exact add_mono hcounts hpoint ht hstart hzero (hcounts.le hcounts' hpoint ht ht' hlt)
    | @later _ _ next rest _ _ hle hlater =>
      -- The next tempo point starts in between.
      obtain ⟨hbefore, hrest⟩ := List.pairwise_cons.1 hascending
      have hgrown := start_grows hstart hpaced hascending
      have hmeasures : start + x ≤ start + point.measuresTo next.time :=
        add_mono hcounts hpoint ht hstart hzero (hnext next rfl).2
      refine Binary64.le_trans hmeasures (start_le hlater (Binary64.le_trans hstart hgrown)
        (List.forall_mem_cons.1 hpaced).2 hrest ht' fun other hother => ?_)
      cases hother
      exact hle
  | @later start point next rest t m hle hlater ih =>
    cases h' with
    | here hcounts' hnext' =>
      have hreach := (hnext' next rfl).1
      omega
    | later hle' hlater' =>
      have hgrown := start_grows hstart hpaced hascending
      refine ih hlater' hlt (Binary64.le_trans hstart hgrown) (.inr fun other hother => ?_)
        (List.forall_mem_cons.1 hpaced).2 (List.pairwise_cons.1 hascending).2 ht
      cases hother
      exact hle

end CountedFrom

/-! ## What a timing counts -/

section

variable {timing : Timing} {before : List TempoStretch} {start : Binary64} {points : List TempoPoint} {t : Int}

/-- A walk counts from the tempo points it comes by. -/
theorem countedFrom_walk (start : Binary64) (hpoints : points ≠ []) (hpaced : ∀ point ∈ points, point.Paced)
    (hascending : points.Pairwise fun a b => a.time < b.time) (ht : t.natAbs ≤ 2 ^ (33 : Nat)) :
    CountedFrom start points t (walk start points t) := by
  fun_induction walk start points t with
  | case1 => exact absurd rfl hpoints
  | case2 start point => exact .here (.position t) fun next hnext => by cases hnext
  | case3 start point next rest hnext ih =>
    exact .later hnext (ih (List.cons_ne_nil _ _) (List.forall_mem_cons.1 hpaced).2 (List.pairwise_cons.1 hascending).2)
  | case4 start point next rest hnext =>
    refine .here (.position t) fun other hother => ?_
    cases hother
    have hpoint := hpaced point List.mem_cons_self
    have hlt := Int.not_le.1 hnext
    exact ⟨Int.le_of_lt hlt, TempoPoint.measuresTo_mono (hpoint.natAbs_sub_le ht)
      (hpoint.natAbs_sub_le (hpaced next (by simp)).near) (Int.le_of_lt hlt)⟩

variable {stop : Int} {line : MeasureLine}

/-- The number of a line is at most the measures of its stretch. -/
theorem number_le_measuresTo {point : TempoPoint} {k : Nat} (hpos : 0 < point.measureLength)
    (hshort : ¬MarkedAtEnds point stop) (hle : point.time ≤ stop) (hnear : stop - point.time ≤ 2 ^ (64 : Nat))
    (hk : (k : Int) ≤ (Binary64.ofInt (stop - point.time) / point.measureLength).toInt64) :
    Binary64.ofInt k ≤ point.measuresTo stop := by
  have hbound := le_maxMeasures hshort hk
  have hnonneg : 0 ≤ Binary64.ofInt (stop - point.time) / point.measureLength :=
    Binary64.ofInt_div_nonneg hpos (by omega) (by omega)
  rw [TempoPoint.measuresTo_eq hpos]
  exact Binary64.ofNat_le_of_le_toInt64 (by omega) hnonneg hk

/-- The lines of a stretch are counted from its tempo point, and none passes the
next one. -/
theorem countedFrom_of_mem_stretchLines {point : TempoPoint} {later : List TempoPoint}
    (hsplit : timing.stretches.toList = before ++ stretchesFrom start (point :: later))
    (hpaced : ∀ other ∈ point :: later, other.Paced)
    (hascending : (point :: later).Pairwise fun a b => a.time < b.time)
    (hshort : ¬MarkedAtEnds point (endBefore stop later))
    (hline : line ∈ timing.stretchLines point (endBefore stop later)) :
    CountedFrom start (point :: later) line.time line.measure := by
  obtain ⟨k, hk, hdrawn⟩ := exists_lineAfter_of_mem_stretchLines hshort hline
  have hpoint := hpaced point List.mem_cons_self
  have hbound := le_maxMeasures hshort hk
  have hfirst : timing.measureAt point.time = start + Binary64.ofInt (0 : Nat) := by
    rw [measureAt_of_stretchesFrom hsplit (Int.le_refl _) (List.pairwise_cons.1 hascending).1,
      TempoPoint.measuresTo_time]
  have htime : line.time = point.time + (Binary64.ofInt k * point.measureLength).toInt64 := by rw [hdrawn]; rfl
  have hmeasure : line.measure = start + Binary64.ofInt k := by
    rw [← Binary64.add_zero_add (by omega : k ≤ 2 ^ (53 : Nat)) start, ← hfirst, hdrawn]
    rfl
  rw [hmeasure, htime]
  refine .here (.line k hbound) fun next hnext => ?_
  have hmem := List.mem_of_mem_head? hnext
  have hend : endBefore stop later = next.time := by simp [endBefore, Option.mem_def.1 hnext]
  have hlt : point.time < next.time := (List.pairwise_cons.1 hascending).1 next hmem
  have hpointnear := hpoint.near
  have hnextnear := (hpaced next (List.mem_cons_of_mem _ hmem)).near
  rw [hend] at hshort hline hk
  refine ⟨?_, number_le_measuresTo hpoint.pos hshort (Int.le_of_lt hlt) (by omega) hk⟩
  rw [← htime]
  exact le_stop_of_drawsAt hpoint.pos (Int.le_of_lt hlt) (by omega) ⟨line, hline, rfl⟩

/-- The lines of all stretches are counted from the first tempo point. -/
theorem countedFrom_of_mem_stretchesOf {stretch : TempoPoint × Int}
    (hsplit : timing.stretches.toList = before ++ stretchesFrom start points) (hpaced : ∀ point ∈ points, point.Paced)
    (hascending : points.Pairwise fun a b => a.time < b.time) (hmem : stretch ∈ stretchesOf stop points)
    (hshort : ¬MarkedAtEnds stretch.1 stretch.2) (hline : line ∈ timing.stretchLines stretch.1 stretch.2) :
    CountedFrom start points line.time line.measure := by
  induction points generalizing before start with
  | nil => cases hmem
  | cons point later ih =>
    rcases List.mem_cons.1 hmem with rfl | hmem
    · exact countedFrom_of_mem_stretchLines hsplit hpaced hascending hshort hline
    · cases later with
      | nil => cases hmem
      | cons next rest =>
        have hpacedlater : ∀ other ∈ next :: rest, other.Paced := (List.forall_mem_cons.1 hpaced).2
        have hascendinglater := (List.pairwise_cons.1 hascending).2
        have hdrawer : stretch.1 ∈ next :: rest := by
          rw [← map_fst_stretchesOf stop (next :: rest)]
          exact List.mem_map_of_mem hmem
        have hafter := time_le_of_mem_stretchLines (hpacedlater _ hdrawer).pos hshort hline
        refine .later ?_ (ih (append_stretchesFrom_cons hsplit) hpacedlater hascendinglater hmem)
        rcases List.mem_cons.1 hdrawer with hself | hrest
        · rwa [hself] at hafter
        · exact Int.le_of_lt (Int.lt_of_lt_of_le ((List.pairwise_cons.1 hascendinglater).1 _ hrest) hafter)

end

variable {timing : Timing} {stop t : Int}

/-- **Every position** of a timing is counted from its first tempo point: the
exact ones, and those of measure lines. -/
theorem Chained.countedFrom_measureAt (hchained : timing.Chained)
    (hpaced : ∀ point ∈ timing.tempoPoints, point.Paced) (ht : t.natAbs ≤ 2 ^ (33 : Nat)) :
    CountedFrom 0 timing.tempoPoints t (timing.measureAt t) := by
  rw [hchained.measureAt_eq_walk]
  exact countedFrom_walk 0 timing.tempoPoints_ne_nil hpaced timing.tempoPoints_ascending ht

theorem Chained.countedFrom_of_mem_measureLines {line : MeasureLine} (hchained : timing.Chained)
    (hpaced : ∀ point ∈ timing.tempoPoints, point.Paced) (ht : line.time.natAbs ≤ 2 ^ (33 : Nat))
    (hline : line ∈ timing.measureLines stop) : CountedFrom 0 timing.tempoPoints line.time line.measure := by
  obtain ⟨stretch, hstretch, hline⟩ := mem_measureLines.1 hline
  by_cases hlong : MarkedAtEnds stretch.1 stretch.2
  · rw [eq_lineAt_of_marked hlong hline]
    exact hchained.countedFrom_measureAt hpaced ht
  · rw [stretchesTo_eq] at hstretch
    exact countedFrom_of_mem_stretchesOf (hchained.trans (List.nil_append _).symm) hpaced
      timing.tempoPoints_ascending hstretch hlong hline

end Timing

end ManiaChart
