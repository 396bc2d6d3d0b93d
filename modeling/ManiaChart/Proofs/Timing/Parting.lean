/-
What parted timing points hold at a millisecond, told by the points of that
millisecond alone, in the order of the file: the tempo is the last one defined
(`tempoOf?`), and the scroll speed the last one set, or the standard one when
nothing sets any and a tempo comes last (`scrollOf?`).

A tempo looks one point ahead to see whether it comes last at its millisecond.
In the order of time that is the same as asking whether any later point is there,
and this is what the induction over the points turns on (`scroll_addAll`).
-/
import Mathlib.Data.List.Nodup
import ManiaChart.Proofs.Timing.WrittenPoints

namespace ManiaChart.Timing

/-- The timing points of a millisecond, in the order of the file. -/
def pointsAt (offset : Int) (points : List TimingPoint) (t : Int) : List TimingPoint :=
  points.filter (alignedTime offset · = t)

/-- The beat length that a timing point sets. -/
def tempo? (point : TimingPoint) : Option Binary64 :=
  if point.definesTempo then some point.beatLength else none

/-- The scroll speed that a timing point sets, when it is finite. -/
def speed? (point : TimingPoint) : Option Binary64 :=
  if !point.definesTempo && (100 / -point.beatLength).isFinite then some (100 / -point.beatLength) else none

/-- The scroll speed that a tempo sets back to, when it comes last. -/
def standard? (here : List TimingPoint) : Option Binary64 :=
  if here.getLast?.any (·.definesTempo) then some ScrollPoint.standard else none

/-- The tempo that the points of a millisecond leave there. -/
def tempoOf? (here : List TimingPoint) : Option Binary64 := (here.filterMap tempo?).getLast?

/-- The scroll speed that the points of a millisecond leave there. -/
def scrollOf? (here : List TimingPoint) : Option Binary64 :=
  (here.filterMap speed?).getLast?.or (standard? here)

/-! ## One point after another -/

namespace Parted

variable {t : Int}

theorem tempo_add (parted : Parted) (time : Int) (point : TimingPoint) (next? : Option Int) :
    (parted.add time point next?).tempo[t]? =
      if time = t then (tempo? point).or parted.tempo[t]? else parted.tempo[t]? := by
  simp only [add, tempo?]
  cases point.definesTempo with
  | true => simp [Std.TreeMap.getElem?_insert]
  | false => cases (100 / -point.beatLength).isFinite <;> simp

theorem scroll_add (parted : Parted) (time : Int) (point : TimingPoint) (next? : Option Int) :
    (parted.add time point next?).scroll[t]? =
      if time = t then
        (speed? point).or (parted.scroll[t]?.or
          (if point.definesTempo = true ∧ next? ≠ some time then some ScrollPoint.standard else none))
      else parted.scroll[t]? := by
  simp only [add, speed?]
  cases hdefines : point.definesTempo with
  | true =>
    by_cases hnext : next? = some time
    · simp [hnext]
    · by_cases ht : time = t
      · subst ht
        simp only [if_true, hnext, if_false, Std.TreeMap.getElem?_insertIfNew, Std.TreeMap.mem_iff_isSome_getElem?]
        cases parted.scroll[time]? <;> simp [hnext]
      · simp [hnext, ht, Std.TreeMap.getElem?_insertIfNew]
  | false =>
    cases (100 / -point.beatLength).isFinite with
    | true => simp [Std.TreeMap.getElem?_insert]
    | false => simp

/-- The points of a millisecond among points with their milliseconds. -/
def here (points : List (Int × TimingPoint)) (t : Int) : List TimingPoint :=
  (points.filter (·.1 = t)).map Prod.snd

theorem here_cons (time : Int) (point : TimingPoint) (rest : List (Int × TimingPoint)) :
    here ((time, point) :: rest) t = if time = t then point :: here rest t else here rest t := by
  by_cases ht : time = t <;> simp [here, ht]

theorem getLast?_filterMap_cons {α β : Type} (f : α → Option β) (a : α) (l : List α) :
    ((a :: l).filterMap f).getLast? = (l.filterMap f).getLast?.or (f a) := by
  cases h : f a with
  | none => rw [List.filterMap_cons_none h, Option.or_none]
  | some b =>
    rw [List.filterMap_cons_some h, List.getLast?_cons]
    cases (l.filterMap f).getLast? <;> rfl

theorem tempo_addAll (parted : Parted) (points : List (Int × TimingPoint)) :
    (parted.addAll points).tempo[t]? = (tempoOf? (here points t)).or parted.tempo[t]? := by
  induction points generalizing parted with
  | nil => simp [addAll, here, tempoOf?]
  | cons entry rest ih =>
    obtain ⟨time, point⟩ := entry
    rw [addAll, ih, tempo_add, here_cons]
    split
    · rw [tempoOf?, tempoOf?, getLast?_filterMap_cons, Option.or_assoc]
    · rfl

theorem standard?_cons (point : TimingPoint) (rest : List TimingPoint) :
    standard? (point :: rest) =
      if rest = [] then if point.definesTempo then some ScrollPoint.standard else none else standard? rest := by
  cases rest with
  | nil => cases hdefines : point.definesTempo <;> simp [standard?, hdefines]
  | cons next more => simp [standard?, List.getLast?_cons]

/-- In order of time, the next point tells whether any is left at a millisecond. -/
theorem here_eq_nil_iff {time : Int} {rest : List (Int × TimingPoint)}
    (h : ∀ entry ∈ rest, time ≤ entry.1) (hordered : rest.Pairwise fun a b => a.1 ≤ b.1) :
    here rest time = [] ↔ rest.head?.map Prod.fst ≠ some time := by
  cases rest with
  | nil => simp [here]
  | cons next more =>
    simp only [here, List.map_eq_nil_iff, List.filter_eq_nil_iff, decide_eq_true_eq, List.head?_cons,
      Option.map_some, ne_eq, Option.some.injEq]
    refine ⟨fun hnone => hnone next List.mem_cons_self, fun hne entry hmem => ?_⟩
    have hnext := h next List.mem_cons_self
    rcases List.mem_cons.1 hmem with rfl | hmem
    · exact hne
    · have hle := (List.pairwise_cons.1 hordered).1 entry hmem
      omega

/-- **The scroll speed at a millisecond**, over points in order of time. A speed
that was there before gives way to one that is set, but not to the standard. -/
theorem scroll_addAll (parted : Parted) {points : List (Int × TimingPoint)}
    (h : points.Pairwise fun a b => a.1 ≤ b.1) :
    (parted.addAll points).scroll[t]? =
      ((here points t).filterMap speed?).getLast?.or (parted.scroll[t]?.or (standard? (here points t))) := by
  induction points generalizing parted with
  | nil => simp [addAll, here, standard?]
  | cons entry rest ih =>
    obtain ⟨time, point⟩ := entry
    obtain ⟨hfirst, hrest⟩ := List.pairwise_cons.1 h
    rw [addAll, ih _ hrest, scroll_add, here_cons]
    split
    next ht =>
      subst ht
      simp only [getLast?_filterMap_cons, standard?_cons, Option.or_assoc]
      congr 3
      -- The point ahead is at this millisecond exactly when the point is not the last one here.
      by_cases hlast : here rest time = []
      · have hnext := (here_eq_nil_iff hfirst hrest).1 hlast
        simp [hlast, hnext, standard?]
      · have hnext := Decidable.of_not_not fun hne => hlast ((here_eq_nil_iff hfirst hrest).2 hne)
        simp [hlast, hnext]
    next => rfl

end Parted

/-! ## The points of a file -/

variable {offset : Int} {points : List TimingPoint} {timing : Timing} {skipped : List Int} {t : Int}

theorem here_align (offset : Int) (points : List TimingPoint) (t : Int) :
    Parted.here (align offset points) t = pointsAt offset points t := by
  rw [Parted.here, align, filter_foldr_insertByTime, List.filter_map, List.map_map, pointsAt]
  simp [Function.comp_def]

theorem tempo_align (offset : Int) (points : List TimingPoint) (t : Int) :
    (Parted.addAll {} (align offset points)).tempo[t]? = tempoOf? (pointsAt offset points t) := by
  rw [Parted.tempo_addAll, here_align]
  simp

theorem scroll_align (offset : Int) (points : List TimingPoint) (t : Int) :
    (Parted.addAll {} (align offset points)).scroll[t]? = scrollOf? (pointsAt offset points t) := by
  rw [Parted.scroll_addAll _ (align_ordered offset points), here_align]
  simp [scrollOf?]

theorem mem_pointsAt {point : TimingPoint} :
    point ∈ pointsAt offset points t ↔ point ∈ points ∧ alignedTime offset point = t := by
  simp [pointsAt]

theorem isSome_tempoOf?_iff {here : List TimingPoint} :
    (tempoOf? here).isSome = true ↔ ∃ point ∈ here, point.definesTempo = true := by
  simp [tempoOf?, tempo?]

theorem tempoPoints_ne_nil_iff (offset : Int) (points : List TimingPoint) :
    (Parted.addAll {} (align offset points)).tempoPoints ≠ [] ↔ ∃ point ∈ points, point.definesTempo = true := by
  refine ⟨?_, ?_⟩
  · intro hne
    obtain ⟨tempo, hmem⟩ := List.exists_mem_of_ne_nil _ hne
    obtain ⟨⟨t, beatLength⟩, hentry, -⟩ := List.mem_map.1 hmem
    have hget := Std.TreeMap.mem_toList_iff_getElem?_eq_some.1 hentry
    rw [tempo_align] at hget
    obtain ⟨point, hpoint, hdefines⟩ := isSome_tempoOf?_iff.1 (Option.isSome_of_eq_some hget)
    exact ⟨point, (mem_pointsAt.1 hpoint).1, hdefines⟩
  · rintro ⟨point, hpoint, hdefines⟩
    have hat : point ∈ pointsAt offset points (alignedTime offset point) := mem_pointsAt.2 ⟨hpoint, rfl⟩
    have hsome := isSome_tempoOf?_iff.2 ⟨point, hat, hdefines⟩
    rw [← tempo_align] at hsome
    obtain ⟨beatLength, hget⟩ := Option.isSome_iff_exists.1 hsome
    exact List.ne_nil_of_mem (List.mem_map_of_mem (Std.TreeMap.mem_toList_iff_getElem?_eq_some.2 hget))

theorem isSome_ofPoints?_iff (offset : Int) (points : List TimingPoint) :
    (ofPoints? offset points).isSome = true ↔ ∃ point ∈ points, point.definesTempo = true := by
  have hlength := congrArg List.length
    (map_point_stretchesFrom 0 (Parted.addAll {} (align offset points)).tempoPoints)
  rw [List.length_map] at hlength
  rw [← tempoPoints_ne_nil_iff offset, ← List.length_pos_iff, ← hlength]
  simp only [ofPoints?, Option.isSome_map, ofParted?]
  split
  next h => simpa using h
  next h => simpa using h

/-- The scroll points of a timing are where the points of a millisecond leave a
speed. -/
theorem mem_scrollPoints_iff (h : ofPoints? offset points = some (timing, skipped)) {point : ScrollPoint} :
    point ∈ timing.scrollPoints.toList ↔ scrollOf? (pointsAt offset points point.time) = some point.multiplier := by
  rw [(series_of_ofPoints? h).2, ← scroll_align, ← Std.TreeMap.mem_toList_iff_getElem?_eq_some]
  simp only [Parted.scrollPoints, List.mem_map, Prod.exists]
  refine ⟨?_, fun hmem => ⟨_, _, hmem, rfl⟩⟩
  rintro ⟨time, multiplier, hmem, rfl⟩
  exact hmem

/-- Points that leave the same tempo at each millisecond make the same
stretches. -/
theorem stretches_eq_of_tempoOf? {others : List TimingPoint} {timing' : Timing} {skipped' : List Int}
    (h : ofPoints? offset points = some (timing, skipped))
    (h' : ofPoints? offset others = some (timing', skipped'))
    (heq : ∀ t, tempoOf? (pointsAt offset points t) = tempoOf? (pointsAt offset others t)) :
    timing.stretches = timing'.stretches := by
  have htempo : (Parted.addAll {} (align offset points)).tempo.toList =
      (Parted.addAll {} (align offset others)).tempo.toList := by
    refine (Std.TreeMap.Equiv.of_forall_constGet?_eq fun t => ?_).toList_eq
    rw [tempo_align, tempo_align, heq]
  rw [← Array.toList_inj, (series_of_ofPoints? h).1, (series_of_ofPoints? h').1, Parted.tempoPoints,
    Parted.tempoPoints, htempo]

end ManiaChart.Timing
