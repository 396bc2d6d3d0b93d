/-
Measure positions grow with time, whatever the tempos are: a tempo without a positive
measure length holds the position, and an infinite position stays infinite
(`Timing.walk_mono`). They do not jump either: a stretch starts at the position where
the one before it ends, to the last bit (`Timing.measureAt_next`).

Positions are compared along the walk to a time. From the start of a stretch on no
position is negative, so opposite infinities never meet.
-/
import ManiaChart.Proofs.Timing.MeasureOrder

namespace ManiaChart

/-- The measure position of a time at the tempo of a stretch, also before the stretch
and past its end. -/
def TempoStretch.measureAt (stretch : TempoStretch) (t : Int) : Binary64 :=
  stretch.measureStart + stretch.point.measuresTo t

namespace Timing

/-! ## Along the walk -/

/-- Whether a time is within 64 binary digits of each of some tempo points. -/
def Near (points : List TempoPoint) (t : Int) : Prop :=
  ∀ point ∈ points, (t - point.time).natAbs ≤ 2 ^ (64 : Nat)

/-- Whether some tempo points are in order of time and near one another. -/
structure Gathered (points : List TempoPoint) : Prop where
  ascending : points.Pairwise fun a b => a.time < b.time
  near : ∀ next ∈ points, Near points next.time

section

variable {start : Binary64} {point next : TempoPoint} {points later : List TempoPoint} {t t' : Int}

theorem Near.of_cons (h : Near (point :: later) t) : Near later t := (List.forall_mem_cons.1 h).2

theorem Gathered.of_cons (h : Gathered (point :: later)) : Gathered later :=
  ⟨(List.pairwise_cons.1 h.ascending).2, fun other hmem => (h.near other (List.mem_cons_of_mem _ hmem)).of_cons⟩

/-- What a tempo point adds does not fall. Before the tempo point it may be negative;
the start is zero then. -/
theorem add_measuresTo_mono (hstart : 0 ≤ start) (hfirst : start = 0 ∨ point.time ≤ t)
    (ht : (t - point.time).natAbs ≤ 2 ^ (64 : Nat)) (ht' : (t' - point.time).natAbs ≤ 2 ^ (64 : Nat)) (h : t ≤ t') :
    start + point.measuresTo t ≤ start + point.measuresTo t' := by
  have hmono := TempoPoint.measuresTo_mono ht ht' h
  rcases hfirst with hzero | hle
  · rw [hzero]
    exact Binary64.zero_add_le_zero_add hmono
  · exact Binary64.add_le_add_left hstart (TempoPoint.measuresTo_nonneg ht hle) hmono

theorem le_add_measuresTo (hstart : 0 ≤ start) (ht : (t - point.time).natAbs ≤ 2 ^ (64 : Nat)) (h : point.time ≤ t) :
    start ≤ start + point.measuresTo t :=
  Binary64.le_add hstart (TempoPoint.measuresTo_nonneg ht h)

theorem Gathered.start_le (h : Gathered (point :: next :: later)) (hstart : 0 ≤ start) :
    start ≤ start + point.measuresTo next.time :=
  le_add_measuresTo hstart (h.near next (by simp) point List.mem_cons_self)
    (Int.le_of_lt ((List.pairwise_cons.1 h.ascending).1 next List.mem_cons_self))

/-- From the first tempo point on, no position is before its start. -/
theorem start_le_walk (h : Gathered points) (hstart : 0 ≤ start) (ht : Near points t)
    (hfirst : ∀ point ∈ points.head?, point.time ≤ t) : start ≤ walk start points t := by
  fun_induction walk start points t with
  | case1 => exact Binary64.le_refl_of_nonneg hstart
  | case2 start point => exact le_add_measuresTo hstart (ht point List.mem_cons_self) (hfirst point rfl)
  | case3 start point next rest hnext ih =>
    have hgrown : start ≤ start + point.measuresTo next.time := h.start_le hstart
    refine Binary64.le_trans hgrown (ih h.of_cons (Binary64.le_trans hstart hgrown) ht.of_cons fun other hother => ?_)
    cases hother
    exact hnext
  | case4 start point next rest hnext =>
    exact le_add_measuresTo hstart (ht point List.mem_cons_self) (hfirst point rfl)

/-- **Along the walk** positions do not fall from a time to a later one. -/
theorem walk_mono (hpoints : Gathered points) (hstart : 0 ≤ start)
    (hfirst : start = 0 ∨ ∀ point ∈ points.head?, point.time ≤ t) (ht : Near points t) (ht' : Near points t')
    (h : t ≤ t') : walk start points t ≤ walk start points t' := by
  fun_induction walk start points t with
  | case1 => exact Binary64.le_refl_of_nonneg hstart
  | case2 start point =>
    exact add_measuresTo_mono hstart (hfirst.imp_right fun hall => hall point rfl) (ht point List.mem_cons_self)
      (ht' point List.mem_cons_self) h
  | case3 start point next rest hnext ih =>
    rw [walk, if_pos (Int.le_trans hnext h)]
    refine ih hpoints.of_cons (Binary64.le_trans hstart (hpoints.start_le hstart)) (.inr fun other hother => ?_)
      ht.of_cons ht'.of_cons
    cases hother
    exact hnext
  | case4 start point next rest hnext =>
    have hpoint : start = 0 ∨ point.time ≤ t := hfirst.imp_right fun hall => hall point rfl
    rw [walk]
    split
    next hnext' =>
      -- The next tempo point lies in between, and the longer walk goes on from there.
      have hreach : start + point.measuresTo t ≤ start + point.measuresTo next.time :=
        add_measuresTo_mono hstart hpoint (ht point List.mem_cons_self)
          (hpoints.near next (by simp) point List.mem_cons_self) (by omega)
      refine Binary64.le_trans hreach (start_le_walk hpoints.of_cons
        (Binary64.le_trans hstart (hpoints.start_le hstart)) ht'.of_cons fun other hother => ?_)
      cases hother
      exact hnext'
    next => exact add_measuresTo_mono hstart hpoint (ht point List.mem_cons_self) (ht' point List.mem_cons_self) h

end

/-! ## From stretch to stretch -/

/-- No position is the negative zero. -/
theorem ne_negative_zero_of_mem_stretchesFrom {start : Binary64} {points : List TempoPoint} {stretch : TempoStretch}
    (hstart : start ≠ Binary64.zero true) (h : stretch ∈ stretchesFrom start points) :
    stretch.measureStart ≠ Binary64.zero true := by
  fun_induction stretchesFrom start points with
  | case1 => cases h
  | case2 start point =>
    cases List.mem_singleton.1 h
    exact hstart
  | case3 start point next rest ih =>
    rcases List.mem_cons.1 h with rfl | h
    · exact hstart
    · exact ih (Binary64.add_ne_negative_zero (.inl hstart)) h

/-- A stretch starts where the one before it ends. -/
theorem measureStart_next {start : Binary64} {points : List TempoPoint} {earlier later : List TempoStretch}
    {stretch next : TempoStretch} (h : stretchesFrom start points = earlier ++ stretch :: next :: later) :
    next.measureStart = stretch.measureAt next.point.time := by
  fun_induction stretchesFrom start points generalizing earlier with
  | case1 => simp at h
  | case2 start point =>
    cases earlier with
    | nil => cases h
    | cons first others => simp at h
  | case3 start point second rest ih =>
    cases earlier with
    | nil =>
      obtain ⟨more, hmore, -⟩ := stretchesFrom_cons (start + point.measuresTo second.time) second rest
      rw [hmore] at h
      obtain ⟨rfl, hrest⟩ := List.cons.inj h
      obtain ⟨rfl, -⟩ := List.cons.inj hrest
      rfl
    | cons first others => exact ih (List.cons.inj h).2

section

variable {offset : Int} {points : List TimingPoint} {timing : Timing} {skipped : List Int} {t : Int}

/-- Aligned times are 64-bit numbers, and so not far from one another. -/
theorem gathered_tempoPoints (h : ofPoints? offset points = some (timing, skipped)) : Gathered timing.tempoPoints := by
  have hwithin : ∀ point ∈ timing.tempoPoints, -0x8000000000000000 ≤ point.time ∧ point.time ≤ 0x7fffffffffffffff := by
    intro point hmem
    obtain ⟨written, -, -, rfl⟩ := exists_of_mem_tempoPoints h hmem
    exact Binary64.toInt64_within _
  refine ⟨timing.tempoPoints_ascending, fun next hnext point hpoint => ?_⟩
  have hfrom := hwithin point hpoint
  have hto := hwithin next hnext
  omega

/-- Whether the distance of a time to each tempo point is a 64-bit number. -/
def Reaches (timing : Timing) (t : Int) : Prop :=
  ∀ point ∈ timing.tempoPoints, -0x8000000000000000 ≤ t - point.time ∧ t - point.time ≤ 0x7fffffffffffffff

theorem Reaches.near (h : timing.Reaches t) : Near timing.tempoPoints t := by
  intro point hmem
  have hspan := h point hmem
  omega

theorem measureAt_mono (h : ofPoints? offset points = some (timing, skipped)) {t' : Int}
    (ht : Near timing.tempoPoints t) (ht' : Near timing.tempoPoints t') (hle : t ≤ t') :
    timing.measureAt t ≤ timing.measureAt t' := by
  have hchained := chained_of_ofPoints? h
  rw [hchained.measureAt_eq_walk, hchained.measureAt_eq_walk]
  exact walk_mono (gathered_tempoPoints h) Binary64.zero_le_zero (.inl rfl) ht ht' hle

theorem measureAt_first (h : ofPoints? offset points = some (timing, skipped)) {first : TempoPoint}
    (hfirst : timing.tempoPoints.head? = some first) : timing.measureAt first.time = 0 := by
  obtain ⟨later, hpoints⟩ := List.head?_eq_some_iff.1 hfirst
  have hlater := (List.pairwise_cons.1 (hpoints ▸ timing.tempoPoints_ascending)).1
  have hsplit : timing.stretches.toList = [] ++ stretchesFrom 0 (first :: later) := hpoints ▸ chained_of_ofPoints? h
  rw [measureAt_of_active hsplit (.inl rfl) hlater, first.measuresTo_time]
  decide +kernel

theorem lt_of_mem_later_stretches {earlier later : List TempoStretch} {stretch : TempoStretch}
    (hsplit : timing.stretches.toList = earlier ++ stretch :: later) :
    ∀ next ∈ later, stretch.point.time < next.point.time := by
  have hordered := timing.stretches_ordered
  rw [hsplit, List.pairwise_append] at hordered
  exact (List.pairwise_cons.1 hordered.2.1).1

/-- Up to the next stretch a time is measured from its own one. -/
theorem measureAt_stretch {earlier later : List TempoStretch} {stretch : TempoStretch}
    (hsplit : timing.stretches.toList = earlier ++ stretch :: later) (hle : stretch.point.time ≤ t)
    (hlt : ∀ next ∈ later, t < next.point.time) : timing.measureAt t = stretch.measureAt t := by
  rw [Timing.measureAt, stretchAt_of_split hsplit hle hlt, TempoStretch.measureAt]

/-- A stretch starts at the position of its tempo point. -/
theorem measureAt_start (h : ofPoints? offset points = some (timing, skipped)) {earlier later : List TempoStretch}
    {stretch : TempoStretch} (hsplit : timing.stretches.toList = earlier ++ stretch :: later) :
    timing.measureAt stretch.point.time = stretch.measureStart := by
  have hmem : stretch ∈ stretchesFrom 0 timing.tempoPoints := by
    rw [← chained_of_ofPoints? h, hsplit]
    simp
  have hne : stretch.measureStart ≠ Binary64.zero true := ne_negative_zero_of_mem_stretchesFrom (by decide +kernel) hmem
  rw [measureAt_stretch hsplit (Int.le_refl _) (lt_of_mem_later_stretches hsplit), TempoStretch.measureAt,
    stretch.point.measuresTo_time, Binary64.add_ofNat_zero hne]

/-- Where a stretch starts, the one before it has got. -/
theorem measureAt_next (h : ofPoints? offset points = some (timing, skipped)) {earlier later : List TempoStretch}
    {stretch next : TempoStretch} (hsplit : timing.stretches.toList = earlier ++ stretch :: next :: later) :
    timing.measureAt next.point.time = stretch.measureAt next.point.time := by
  have hchained : timing.stretches.toList = stretchesFrom 0 timing.tempoPoints := chained_of_ofPoints? h
  rw [measureAt_start h (hsplit.trans (List.append_cons ..)), measureStart_next (hchained.symm.trans hsplit)]

/-- **Measure positions grow without a jump.** They do not fall from a time to a later
one, are zero at the first tempo point and not positive before it, and are always
numbers. Up to the next tempo point a time is measured in its stretch, and the next
tempo point too: the stretch ends where the next one starts. -/
theorem measureAt_grows (h : ofPoints? offset points = some (timing, skipped)) :
    (∀ t t', timing.Reaches t → timing.Reaches t' → t ≤ t' → timing.measureAt t ≤ timing.measureAt t') ∧
      (∀ first, timing.tempoPoints.head? = some first →
        timing.measureAt first.time = 0 ∧ ∀ t < first.time, timing.Reaches t → timing.measureAt t ≤ 0) ∧
      (∀ t, timing.Reaches t → timing.measureAt t ≠ .nan) ∧
      ∀ earlier stretch next later, timing.stretches.toList = earlier ++ stretch :: next :: later →
        (∀ t < next.point.time, stretch.point.time ≤ t → timing.measureAt t = stretch.measureAt t) ∧
        timing.measureAt next.point.time = stretch.measureAt next.point.time := by
  have hgathered := gathered_tempoPoints h
  refine ⟨fun t t' ht ht' => measureAt_mono h ht.near ht'.near, fun first hfirst => ?_, fun t ht hnan => ?_,
    fun earlier stretch next later hsplit => ⟨fun t hlt hle => ?_, measureAt_next h hsplit⟩⟩
  · have hzero := measureAt_first h hfirst
    refine ⟨hzero, fun t hlt ht => ?_⟩
    rw [← hzero]
    exact measureAt_mono h ht.near (hgathered.near first (List.mem_of_mem_head? hfirst)) (Int.le_of_lt hlt)
  · -- Nothing is below a NaN, not even itself.
    obtain ⟨x, hx, -⟩ := measureAt_mono h ht.near ht.near (Int.le_refl t)
    rw [hnan] at hx
    cases hx
  · refine measureAt_stretch hsplit hle fun other hmem => ?_
    rcases List.mem_cons.1 hmem with rfl | hmem
    · exact hlt
    · exact Int.lt_trans hlt (lt_of_mem_later_stretches (hsplit.trans (List.append_cons ..)) other hmem)

end

/-! ## Tempos of all kinds -/

/-- A steady tempo, one of beat length zero, a negative one, the fastest one there is
and a steady one again. -/
def erratic : List TimingPoint :=
  [{ time := 0, beatLength := 500 }, { time := 1000, beatLength := 0 }, { time := 2000, beatLength := -400 },
    { time := 3000, beatLength := .finite false ⟨1, Binary64.representable_one⟩ }, { time := 4000, beatLength := 300 }]

theorem measureAt_grows_erratic :
    ∃ timing skipped,
      ofPoints? 0 erratic = some (timing, skipped) ∧
      (timing.Reaches (-500) ∧ timing.Reaches 1500 ∧ timing.Reaches 5000) ∧
      timing.measureAt (-500) ≤ 0 ∧ timing.measureAt 0 = 0 ∧
      timing.measureAt (-500) ≤ timing.measureAt 1500 ∧ timing.measureAt 1500 ≤ timing.measureAt 5000 ∧
      timing.measureAt 5000 = .infinity false := by
  have hmade : (ofPoints? 0 erratic).any (fun made =>
      decide (made.1.tempoPoints.map (·.time) = [0, 1000, 2000, 3000, 4000] ∧
        made.1.measureAt 5000 = .infinity false)) = true := by decide +kernel
  obtain ⟨⟨timing, skipped⟩, hmade, hchecks⟩ := (Option.any_eq_true ..).1 hmade
  simp only [decide_eq_true_eq] at hchecks
  obtain ⟨htimes, hinfinite⟩ := hchecks
  have hreaches : ∀ t, -1000 ≤ t → t ≤ 10000 → timing.Reaches t := by
    intro t hlow hhigh point hmem
    have htime : point.time ∈ timing.tempoPoints.map (·.time) := List.mem_map_of_mem hmem
    simp only [htimes, List.mem_cons, List.not_mem_nil, or_false] at htime
    omega
  have hbefore := hreaches (-500) (by decide) (by decide)
  have hmiddle := hreaches 1500 (by decide) (by decide)
  have hlast := hreaches 5000 (by decide) (by decide)
  obtain ⟨hmono, hzero, -, -⟩ := measureAt_grows hmade
  obtain ⟨first, later, hpoints, htime, -⟩ := List.map_eq_cons_iff.1 htimes
  obtain ⟨hfirst, hnonpos⟩ := hzero first (by rw [hpoints, List.head?_cons])
  rw [htime] at hfirst
  exact ⟨timing, skipped, hmade, ⟨hbefore, hmiddle, hlast⟩, hnonpos (-500) (by omega) hbefore, hfirst,
    hmono _ _ hbefore hmiddle (by decide), hmono _ _ hmiddle hlast (by decide), hinfinite⟩

end Timing

end ManiaChart
