/-
What skipped scroll points do to a timing. A scroll point without a finite speed
sets none, but it still stands among the points: a tempo that it follows at one
millisecond does not come last there, and leaves the scroll speed as it is
(`shadows`). Without the skipped points such a tempo sets the scroll speed back
to the standard one. That is the only difference (`ofPoints?_filter_usable`).
-/
import ManiaChart.Proofs.Timing.Lookup
import ManiaChart.Proofs.Timing.Parting

namespace ManiaChart.Timing

/-- Whether a timing point is not skipped. -/
def usable (point : TimingPoint) : Bool := point.definesTempo || (100 / -point.beatLength).isFinite

/-- Whether the points of a millisecond define a tempo there and set no scroll
speed, with a skipped point as the last one. -/
def shadows (here : List TimingPoint) : Bool :=
  here.any (·.definesTempo) && (here.filterMap speed?).isEmpty && !here.getLast?.any (·.definesTempo)

/-! ## The points of a millisecond -/

section Here

variable {here : List TimingPoint}

theorem filterMap_filter_usable {α : Type} {f : TimingPoint → Option α}
    (h : ∀ point, usable point = false → f point = none) (here : List TimingPoint) :
    (here.filter usable).filterMap f = here.filterMap f := by
  rw [List.filterMap_filter]
  refine List.filterMap_congr fun point _ => ?_
  cases husable : usable point with
  | true => rfl
  | false => simp [h point husable]

theorem tempoOf?_filter_usable (here : List TimingPoint) : tempoOf? (here.filter usable) = tempoOf? here := by
  rw [tempoOf?, tempoOf?, filterMap_filter_usable]
  intro point husable
  simp_all [usable, tempo?]

theorem speed?_eq_none_iff {point : TimingPoint} (h : point.definesTempo = false) :
    speed? point = none ↔ usable point = false := by
  simp [speed?, usable, h]

theorem filterMap_speed?_filter_usable (here : List TimingPoint) :
    (here.filter usable).filterMap speed? = here.filterMap speed? := by
  refine filterMap_filter_usable (fun point husable => ?_) here
  simp_all [usable, speed?]

/-- Where no speed is set, the points that are left define tempos. -/
theorem standard?_filter_usable (h : here.filterMap speed? = []) :
    standard? (here.filter usable) = if here.any (·.definesTempo) then some ScrollPoint.standard else none := by
  have hfilter : here.filter usable = here.filter (·.definesTempo) := by
    refine List.filter_congr fun point hmem => ?_
    have hnone := List.filterMap_eq_nil_iff.1 h point hmem
    cases hdefines : point.definesTempo with
    | true => simp [usable, hdefines]
    | false => exact (speed?_eq_none_iff hdefines).1 hnone
  rw [hfilter, standard?]
  cases hlast : (here.filter (·.definesTempo)).getLast? with
  | none => simp_all
  | some point =>
    obtain ⟨hmem, hdefines⟩ := List.mem_filter.1 (List.mem_of_getLast? hlast)
    have hany : here.any (·.definesTempo) = true := List.any_eq_true.2 ⟨point, hmem, hdefines⟩
    simp [hany, hdefines]

theorem scrollOf?_eq_none_of_shadows (h : shadows here = true) : scrollOf? here = none := by
  simp only [shadows, Bool.and_eq_true, List.isEmpty_iff, Bool.not_eq_true'] at h
  obtain ⟨⟨-, hspeeds⟩, hlast⟩ := h
  simp [scrollOf?, standard?, hspeeds, hlast]

/-- Without the skipped points, a shadowed tempo sets the scroll speed back. -/
theorem scrollOf?_filter_usable (here : List TimingPoint) :
    scrollOf? (here.filter usable) = if shadows here then some ScrollPoint.standard else scrollOf? here := by
  rw [scrollOf?, filterMap_speed?_filter_usable]
  by_cases hspeeds : here.filterMap speed? = []
  · rw [standard?_filter_usable hspeeds, scrollOf?, hspeeds, List.getLast?_nil, Option.none_or, Option.none_or]
    cases hlast : here.getLast?.any (·.definesTempo) with
    | true =>
      obtain ⟨point, hpoint, hdefines⟩ := (Option.any_eq_true ..).1 hlast
      have hany : here.any (·.definesTempo) = true :=
        List.any_eq_true.2 ⟨point, List.mem_of_getLast? hpoint, hdefines⟩
      simp [shadows, standard?, hlast, hany]
    | false => simp [shadows, standard?, hlast, hspeeds]
  · obtain ⟨speed, hspeed⟩ := Option.isSome_iff_exists.1 (List.getLast?_isSome.2 hspeeds)
    have hshadows : shadows here = false := by simp [shadows, hspeeds]
    simp [scrollOf?, hspeed, hshadows]

end Here

/-! ## Timings -/

variable {offset : Int} {points : List TimingPoint} {timing pruned : Timing} {skipped : List Int}

theorem pointsAt_filter (offset : Int) (points : List TimingPoint) (p : TimingPoint → Bool) (t : Int) :
    pointsAt offset (points.filter p) t = (pointsAt offset points t).filter p := by
  rw [pointsAt, pointsAt, List.filter_comm]

theorem skippedTime?_eq (point : TimingPoint) :
    skippedTime? point = if usable point then none else some point.time.toInt64 := by
  cases hdefines : point.definesTempo with
  | true => simp [skippedTime?, usable, hdefines]
  | false => cases hfinite : (100 / -point.beatLength).isFinite <;> simp [skippedTime?, usable, hdefines, hfinite]

theorem filterMap_skippedTime? (points : List TimingPoint) :
    points.filterMap skippedTime? = (points.filter (!usable ·)).map (·.time.toInt64) := by
  induction points with
  | nil => rfl
  | cons point rest ih =>
    rw [List.filterMap_cons, skippedTime?_eq, ih]
    cases husable : usable point <;> simp [husable]

/-- Each point that is not usable is reported once, by its written time. -/
theorem skipped_perm (h : ofPoints? offset points = some (timing, skipped)) :
    skipped.Perm ((points.filter (!usable ·)).map (·.time.toInt64)) := by
  rw [skipped_of_ofPoints? h, ← filterMap_skippedTime?]
  exact (inStableOrder_align offset points).perm.filterMap _

theorem stretchAt_congr (h : pruned.stretches = timing.stretches) (t : Int) :
    pruned.stretchAt t = timing.stretchAt t := by
  cases timing
  cases pruned
  simp only at h
  subst h
  rfl

theorem getLast?_filter {α : Type} {l : List α} {a : α} {p : α → Bool} (h : l.getLast? = some a)
    (ha : p a = true) : (l.filter p).getLast? = some a := by
  obtain ⟨rest, rfl⟩ := List.getLast?_eq_some_iff.1 h
  simp [ha]

/-- The scroll speed is the same as without some of the points, where the active
one is not among these. -/
theorem scrollAt_of_filter {p : ScrollPoint → Bool}
    (h : timing.scrollPoints.toList = pruned.scrollPoints.toList.filter p) {t : Int}
    (hactive : ∀ point, Timed.active? pruned.scrollPoints t = some point → p point = true) :
    pruned.scrollAt t = timing.scrollAt t := by
  have hsorted : Timed.Sorted timing.scrollPoints := timing.scrollPoints_ordered.imp Int.le_of_lt
  have hsorted' : Timed.Sorted pruned.scrollPoints := pruned.scrollPoints_ordered.imp Int.le_of_lt
  have hsame : Timed.active? timing.scrollPoints t = Timed.active? pruned.scrollPoints t := by
    rw [Timed.active?_eq hsorted' t] at hactive
    rw [Timed.active?_eq hsorted, Timed.active?_eq hsorted', h, List.filter_comm]
    cases hlast : (pruned.scrollPoints.toList.filter (Timed.time · ≤ t)).getLast? with
    | some point =>
      rw [hlast, Option.some_or] at hactive
      rw [getLast?_filter hlast (hactive point rfl), Option.some_or, Option.some_or]
    | none =>
      -- All points are later: the first one is active with or without the others.
      rw [hlast, Option.none_or] at hactive
      rw [List.getLast?_eq_none_iff.1 hlast, List.filter_nil, List.getLast?_nil, Option.none_or, Option.none_or]
      cases hpoints : pruned.scrollPoints.toList with
      | nil => rfl
      | cons first rest =>
        rw [hpoints] at hactive
        rw [List.filter_cons_of_pos (hactive first rfl), List.head?_cons, List.head?_cons]
  rw [scrollAt, scrollAt, hsame]

theorem nodup_scrollPoints (timing : Timing) : timing.scrollPoints.toList.Nodup := by
  refine List.nodup_iff_pairwise_ne.2 (timing.scrollPoints_ordered.imp fun {a b} hlt => ?_)
  rintro rfl
  exact Int.lt_irrefl _ hlt

/-- The scroll points of a timing are those of the usable points, less the
standard ones of shadowed tempos. -/
theorem scrollPoints_eq_filter (h : ofPoints? offset points = some (timing, skipped)) {skipped' : List Int}
    (hpruned : ofPoints? offset (points.filter usable) = some (pruned, skipped')) :
    timing.scrollPoints.toList =
      pruned.scrollPoints.toList.filter fun point => !shadows (pointsAt offset points point.time) := by
  have hmem : ∀ point, point ∈ timing.scrollPoints.toList ↔
      point ∈ pruned.scrollPoints.toList.filter fun point => !shadows (pointsAt offset points point.time) := by
    intro point
    rw [List.mem_filter, mem_scrollPoints_iff h, mem_scrollPoints_iff hpruned, pointsAt_filter,
      scrollOf?_filter_usable]
    cases hshadows : shadows (pointsAt offset points point.time) with
    | true => simp [scrollOf?_eq_none_of_shadows hshadows]
    | false => simp
  have hperm := (List.perm_ext_iff_of_nodup timing.nodup_scrollPoints (pruned.nodup_scrollPoints.filter _)).2 hmem
  refine hperm.eq_of_pairwise (fun a b _ _ hab hba => ?_) timing.scrollPoints_ordered
    (pruned.scrollPoints_ordered.filter _)
  exact absurd hab (Int.lt_asymm hba)

theorem standard_mem_of_shadows (hpruned : ofPoints? offset (points.filter usable) = some (pruned, skipped))
    {t : Int} (h : shadows (pointsAt offset points t) = true) :
    ⟨t, ScrollPoint.standard⟩ ∈ pruned.scrollPoints.toList := by
  rw [mem_scrollPoints_iff hpruned, pointsAt_filter, scrollOf?_filter_usable, if_pos h]

/-- Whether two timings are the same, but for standard scroll points that the
first one lacks at some milliseconds. -/
structure AlikeBut (lacking : Int → Bool) (timing other : Timing) : Prop where
  stretches : other.stretches = timing.stretches
  tempo : ∀ t, other.bpmAt t = timing.bpmAt t ∧ other.measureAt t = timing.measureAt t
  scrollPoints : timing.scrollPoints.toList = other.scrollPoints.toList.filter fun point => !lacking point.time
  standard : ∀ t, lacking t = true → ⟨t, ScrollPoint.standard⟩ ∈ other.scrollPoints.toList
  same_iff : other.scrollPoints = timing.scrollPoints ↔ ∀ t, lacking t = false
  /-- The scroll speed is the same wherever it is not that of such a point. -/
  scroll : ∀ t, (∀ point, Timed.active? other.scrollPoints t = some point → lacking point.time = false) →
    other.scrollAt t = timing.scrollAt t

/-- **Skipped scroll points** change nothing but what a tempo before them, at
their millisecond, would set back to the standard: without them such tempos have
their scroll points, all else is the same, and nothing is reported. -/
theorem ofPoints?_filter_usable (offset : Int) {points : List TimingPoint}
    (h : ∃ point ∈ points, point.definesTempo = true) :
    ∃ timing pruned skipped,
      ofPoints? offset points = some (timing, skipped) ∧
      ofPoints? offset (points.filter usable) = some (pruned, []) ∧
      skipped.Perm ((points.filter (!usable ·)).map (·.time.toInt64)) ∧
      AlikeBut (fun t => shadows (pointsAt offset points t)) timing pruned := by
  have hpruned : ∃ point ∈ points.filter usable, point.definesTempo = true := by
    obtain ⟨point, hmem, hdefines⟩ := h
    exact ⟨point, List.mem_filter.2 ⟨hmem, by simp [usable, hdefines]⟩, hdefines⟩
  obtain ⟨⟨timing, skipped⟩, hmade⟩ := Option.isSome_iff_exists.1 ((isSome_ofPoints?_iff offset points).2 h)
  obtain ⟨⟨pruned, skipped'⟩, hmade'⟩ := Option.isSome_iff_exists.1 ((isSome_ofPoints?_iff offset _).2 hpruned)
  have hnone : skipped' = [] := by
    have hperm := skipped_perm hmade'
    rw [List.filter_filter] at hperm
    simpa using hperm
  subst hnone
  have hstretches : pruned.stretches = timing.stretches := by
    refine stretches_eq_of_tempoOf? hmade' hmade fun t => ?_
    rw [pointsAt_filter, tempoOf?_filter_usable]
  have hfilter := scrollPoints_eq_filter hmade hmade'
  refine ⟨timing, pruned, skipped, hmade, hmade', skipped_perm hmade, hstretches, ?_, hfilter,
    fun t => standard_mem_of_shadows hmade', ⟨?_, ?_⟩, ?_⟩
  · intro t
    simp only [bpmAt, tempoAt, measureAt, stretchAt_congr hstretches, and_self]
  · intro heq t
    rw [← Bool.not_eq_true]
    intro hshadows
    have hmem := standard_mem_of_shadows hmade' hshadows
    rw [heq, hfilter] at hmem
    simpa [hshadows] using (List.mem_filter.1 hmem).2
  · intro hnone
    rw [← Array.toList_inj, hfilter, List.filter_eq_self.2 fun point _ => by simp [hnone]]
  · intro t hactive
    exact scrollAt_of_filter hfilter fun point hpoint => by simp [hactive point hpoint]

/-! ## A tempo that is shadowed -/

/-- A tempo at double scroll speed, and a second one with a scroll point of beat
length zero on top of it. -/
def shadowedReset : List TimingPoint :=
  [{ time := 0, beatLength := 500 }, { time := 0, beatLength := -50, definesTempo := false },
    { time := 1000, beatLength := 400 }, { time := 1000, beatLength := 0, definesTempo := false }]

theorem ofPoints?_filter_usable_shadowedReset :
    (∃ point ∈ shadowedReset, point.definesTempo = true) ∧
      ∃ timing pruned skipped,
        ofPoints? 0 shadowedReset = some (timing, skipped) ∧
        ofPoints? 0 (shadowedReset.filter usable) = some (pruned, []) ∧
        skipped.Perm ((shadowedReset.filter (!usable ·)).map (·.time.toInt64)) ∧
        AlikeBut (fun t => shadows (pointsAt 0 shadowedReset t)) timing pruned ∧
        shadows (pointsAt 0 shadowedReset 1000) = true := by
  have htempo : ∃ point ∈ shadowedReset, point.definesTempo = true := by decide +kernel
  obtain ⟨timing, pruned, skipped, hmade, hpruned, hskipped, halike⟩ := ofPoints?_filter_usable 0 htempo
  exact ⟨htempo, timing, pruned, skipped, hmade, hpruned, hskipped, halike, by decide +kernel⟩

/-- With the skipped point the double speed stays; without it the second tempo
sets it back. -/
theorem not_same_scroll_shadowedReset :
    ∃ timing pruned skipped,
      ofPoints? 0 shadowedReset = some (timing, skipped) ∧
      ofPoints? 0 (shadowedReset.filter usable) = some (pruned, []) ∧
      timing.scrollAt 1000 = 2 ∧ pruned.scrollAt 1000 = 1 ∧
      ¬∀ t, pruned.scrollAt t = timing.scrollAt t := by
  have hall : (ofPoints? 0 shadowedReset).any (fun made => decide (made.1.scrollAt 1000 = 2)) = true := by
    decide +kernel
  have husable : (ofPoints? 0 (shadowedReset.filter usable)).any
      (fun made => decide (made.1.scrollAt 1000 = 1 ∧ made.2 = [])) = true := by decide +kernel
  obtain ⟨⟨timing, skipped⟩, hmade, hscroll⟩ := (Option.any_eq_true ..).1 hall
  obtain ⟨⟨pruned, skipped'⟩, hpruned, hscroll'⟩ := (Option.any_eq_true ..).1 husable
  simp only [decide_eq_true_eq] at hscroll hscroll'
  obtain ⟨hstandard, rfl⟩ := hscroll'
  refine ⟨timing, pruned, skipped, hmade, hpruned, hscroll, hstandard, fun hsame => ?_⟩
  have h := hsame 1000
  rw [hstandard, hscroll] at h
  exact absurd h (by decide +kernel)

end ManiaChart.Timing
