/-
The order in which timing points are taken: by their milliseconds, those of one
millisecond as the file has them (`Timing.inStableOrder_align`). Taken in that
order, the scroll points without a finite speed are the ones skipped
(`Timing.skipped_of_ofPoints?`).
-/
import ManiaChart.Timing.Basic

namespace ManiaChart

/-- Items in the order of a key, those of one key in the order they came in. -/
structure InStableOrder {α : Type} (key : α → Int) (items ordered : List α) : Prop where
  perm : ordered.Perm items
  ascending : ordered.Pairwise fun a b => key a ≤ key b
  stable : ∀ t, ordered.filter (key · = t) = items.filter (key · = t)

namespace Timing

/-! ## Timing points in order -/

theorem insertByTime_perm (point : Int × TimingPoint) (points : List (Int × TimingPoint)) :
    (insertByTime point points).Perm (point :: points) := by
  fun_induction insertByTime point points with
  | case1 => exact .refl _
  | case2 => exact .refl _
  | case3 first rest _ ih => exact (ih.cons first).trans (.swap point first rest)

theorem filter_insertByTime (point : Int × TimingPoint) (points : List (Int × TimingPoint)) (t : Int) :
    (insertByTime point points).filter (·.1 = t) = (point :: points).filter (·.1 = t) := by
  fun_induction insertByTime point points with
  | case1 => rfl
  | case2 => rfl
  | case3 first rest hlt ih =>
    rw [List.filter_cons, ih]
    by_cases hfirst : first.1 = t
    · have hpoint : ¬point.1 = t := by omega
      simp [hfirst, hpoint]
    · simp [List.filter_cons, hfirst]

theorem perm_foldr_insertByTime (points : List (Int × TimingPoint)) :
    (points.foldr insertByTime []).Perm points := by
  induction points with
  | nil => exact .nil
  | cons point rest ih => exact (insertByTime_perm ..).trans (ih.cons point)

theorem filter_foldr_insertByTime (points : List (Int × TimingPoint)) (t : Int) :
    (points.foldr insertByTime []).filter (·.1 = t) = points.filter (·.1 = t) := by
  induction points with
  | nil => rfl
  | cons point rest ih => rw [List.foldr_cons, filter_insertByTime, List.filter_cons, ih, List.filter_cons]

theorem mem_align {offset : Int} {points : List TimingPoint} {entry : Int × TimingPoint}
    (h : entry ∈ align offset points) : entry.2 ∈ points ∧ entry.1 = alignedTime offset entry.2 := by
  obtain ⟨point, hmem, rfl⟩ := List.mem_map.1 ((perm_foldr_insertByTime _).mem_iff.1 h)
  exact ⟨hmem, rfl⟩

/-- Points are aligned in the order of their milliseconds, those of one
millisecond as they came. -/
theorem inStableOrder_align (offset : Int) (points : List TimingPoint) :
    InStableOrder (alignedTime offset) points ((align offset points).map Prod.snd) := by
  have hperm := perm_foldr_insertByTime (points.map fun point => (alignedTime offset point, point))
  have htime : ∀ entry ∈ align offset points, alignedTime offset entry.2 = entry.1 :=
    fun entry hmem => (mem_align hmem).2.symm
  refine ⟨?_, ?_, fun t => ?_⟩
  · simpa [align, Function.comp_def] using hperm.map Prod.snd
  · rw [List.pairwise_map]
    refine (align_ordered offset points).imp_of_mem fun {a b} ha hb hle => ?_
    rwa [htime a ha, htime b hb]
  · have hfilter : (align offset points).filter (fun entry => alignedTime offset entry.2 = t) =
        (align offset points).filter (·.1 = t) := List.filter_congr fun entry hmem => by rw [htime entry hmem]
    rw [List.filter_map, Function.comp_def, hfilter, align, filter_foldr_insertByTime, List.filter_map, List.map_map]
    simp [Function.comp_def]

/-! ## Skipped scroll points -/

/-- The time, as written, of a scroll point without a finite speed. -/
def skippedTime? (point : TimingPoint) : Option Int :=
  if !point.definesTempo && !(100 / -point.beatLength).isFinite then some point.time.toInt64 else none

theorem skipped_add (parted : Parted) (time : Int) (point : TimingPoint) (next? : Option Int) :
    (parted.add time point next?).skipped.toList = parted.skipped.toList ++ (skippedTime? point).toList := by
  unfold Parted.add skippedTime?
  cases point.definesTempo with
  | true => simp
  | false => cases hfinite : (100 / -point.beatLength).isFinite <;> simp [hfinite]

theorem skipped_addAll (parted : Parted) (points : List (Int × TimingPoint)) :
    (parted.addAll points).skipped.toList =
      parted.skipped.toList ++ (points.map Prod.snd).filterMap skippedTime? := by
  induction points generalizing parted with
  | nil => simp [Parted.addAll]
  | cons entry rest ih =>
    obtain ⟨time, point⟩ := entry
    rw [Parted.addAll, ih, skipped_add, List.append_assoc, List.map_cons, List.filterMap_cons]
    cases skippedTime? point <;> rfl

/-- The points skipped are those whose speed is not finite, in the order of
time. -/
theorem skipped_of_ofPoints? {offset : Int} {points : List TimingPoint} {timing : Timing}
    {skipped : List Int} (h : ofPoints? offset points = some (timing, skipped)) :
    skipped = ((align offset points).map Prod.snd).filterMap skippedTime? := by
  obtain ⟨_, -, hskipped⟩ := Option.map_eq_some_iff.1 h
  rw [← (Prod.mk.inj hskipped).2, skipped_addAll]
  rfl

end Timing

end ManiaChart
