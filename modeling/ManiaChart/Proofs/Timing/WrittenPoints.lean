/-
Where tempo and scroll points come from: a tempo point is a timing point that
defines a tempo (`Timing.exists_of_mem_tempoPoints`), a scroll point stands
where some timing point does (`Timing.exists_of_mem_scrollPoints`).

The points are parted one after another, so what holds after all of them follows
from what one of them adds (`Parted.tempo_of_add`, `Parted.mem_scroll_add`).
-/
import ManiaChart.Proofs.Timing.StableOrder

namespace ManiaChart.Timing

namespace Parted

variable {parted : Parted} {t : Int}

theorem tempo_of_add {time : Int} {point : TimingPoint} {next? : Option Int} {beatLength : Binary64}
    (h : (parted.add time point next?).tempo[t]? = some beatLength) :
    parted.tempo[t]? = some beatLength ∨
      point.definesTempo = true ∧ time = t ∧ point.beatLength = beatLength := by
  unfold add at h
  cases hdefines : point.definesTempo with
  | true =>
    simp only [hdefines, if_true, Std.TreeMap.getElem?_insert] at h
    split at h
    next hcompare => exact .inr ⟨rfl, Std.LawfulEqOrd.eq_of_compare hcompare, Option.some.inj h⟩
    · exact .inl h
  | false =>
    simp only [hdefines, Bool.false_eq_true, if_false] at h
    split at h <;> exact .inl h

theorem mem_scroll_add {time : Int} {point : TimingPoint} {next? : Option Int}
    (h : t ∈ (parted.add time point next?).scroll) : t ∈ parted.scroll ∨ time = t := by
  unfold add at h
  cases hdefines : point.definesTempo with
  | true =>
    simp only [hdefines, if_true] at h
    split at h
    · exact .inl h
    · simpa [Std.TreeMap.mem_insertIfNew, or_comm] using h
  | false =>
    simp only [hdefines, Bool.false_eq_true, if_false] at h
    split at h
    · simpa [Std.TreeMap.mem_insert, or_comm] using h
    · exact .inl h

theorem tempo_of_addAll {points : List (Int × TimingPoint)} {beatLength : Binary64}
    (h : (parted.addAll points).tempo[t]? = some beatLength) :
    parted.tempo[t]? = some beatLength ∨
      ∃ entry ∈ points, entry.2.definesTempo = true ∧ entry.1 = t ∧ entry.2.beatLength = beatLength := by
  induction points generalizing parted with
  | nil => exact .inl h
  | cons entry rest ih =>
    obtain ⟨time, point⟩ := entry
    rcases ih h with hmem | ⟨other, hother, htempo⟩
    · rcases tempo_of_add hmem with hmem | htempo
      · exact .inl hmem
      · exact .inr ⟨(time, point), List.mem_cons_self, htempo⟩
    · exact .inr ⟨other, List.mem_cons_of_mem _ hother, htempo⟩

theorem mem_scroll_addAll {points : List (Int × TimingPoint)} (h : t ∈ (parted.addAll points).scroll) :
    t ∈ parted.scroll ∨ ∃ entry ∈ points, entry.1 = t := by
  induction points generalizing parted with
  | nil => exact .inl h
  | cons entry rest ih =>
    obtain ⟨time, point⟩ := entry
    rcases ih h with hmem | ⟨other, hother, htime⟩
    · rcases mem_scroll_add hmem with hmem | htime
      · exact .inl hmem
      · exact .inr ⟨(time, point), List.mem_cons_self, htime⟩
    · exact .inr ⟨other, List.mem_cons_of_mem _ hother, htime⟩

end Parted

variable {offset : Int} {points : List TimingPoint} {timing : Timing} {skipped : List Int}

/-- The series of a timing are those of its parted points. -/
theorem series_of_ofPoints? (h : ofPoints? offset points = some (timing, skipped)) :
    timing.stretches.toList = stretchesFrom 0 (Parted.addAll {} (align offset points)).tempoPoints ∧
      timing.scrollPoints.toList = (Parted.addAll {} (align offset points)).scrollPoints := by
  obtain ⟨made, hmade, hpair⟩ := Option.map_eq_some_iff.1 h
  obtain ⟨rfl, -⟩ := Prod.mk.inj hpair
  simp only [ofParted?] at hmade
  split at hmade
  · cases hmade
    exact ⟨rfl, rfl⟩
  · cases hmade

theorem tempoPoints_of_ofPoints? (h : ofPoints? offset points = some (timing, skipped)) :
    timing.tempoPoints = (Parted.addAll {} (align offset points)).tempoPoints := by
  rw [tempoPoints, (series_of_ofPoints? h).1, map_point_stretchesFrom]

/-- A tempo point is a timing point that defines a tempo. -/
theorem exists_of_mem_tempoPoints (h : ofPoints? offset points = some (timing, skipped))
    {point : TempoPoint} (hmem : point ∈ timing.tempoPoints) :
    ∃ written ∈ points, written.definesTempo = true ∧ point = ⟨alignedTime offset written, written.beatLength⟩ := by
  rw [tempoPoints_of_ofPoints? h] at hmem
  obtain ⟨entry, hentry, rfl⟩ := List.mem_map.1 hmem
  rcases Parted.tempo_of_addAll (Std.TreeMap.mem_toList_iff_getElem?_eq_some.1 hentry) with
    hnone | ⟨source, hsource, hdefines, htime, hlength⟩
  · simp at hnone
  · obtain ⟨hwritten, haligned⟩ := mem_align hsource
    exact ⟨source.2, hwritten, hdefines, by rw [← haligned, htime, hlength]⟩

theorem exists_of_mem_scrollPoints (h : ofPoints? offset points = some (timing, skipped))
    {point : ScrollPoint} (hmem : point ∈ timing.scrollPoints) :
    ∃ written ∈ points, point.time = alignedTime offset written := by
  rw [← Array.mem_toList_iff, (series_of_ofPoints? h).2] at hmem
  obtain ⟨entry, hentry, rfl⟩ := List.mem_map.1 hmem
  have hkey : entry.1 ∈ (Parted.addAll {} (align offset points)).scroll := by
    rw [Std.TreeMap.mem_iff_isSome_getElem?, Std.TreeMap.mem_toList_iff_getElem?_eq_some.1 hentry]
    rfl
  rcases Parted.mem_scroll_addAll hkey with hnone | ⟨source, hsource, htime⟩
  · simp at hnone
  · obtain ⟨hwritten, haligned⟩ := mem_align hsource
    exact ⟨source.2, hwritten, htime.symm.trans haligned⟩

end ManiaChart.Timing
