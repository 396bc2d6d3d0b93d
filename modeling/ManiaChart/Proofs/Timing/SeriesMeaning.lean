/-
The two series of a timing, told by the timing points as they are written: which
milliseconds have a tempo point or a scroll point, and which of the points written
there it comes from (`Timing.Means`).

Only the order of points of one millisecond tells anything. Points that differ in
the order of their milliseconds alone are taken in the same order
(`Timing.align_congr`), so they make the same timing and are skipped alike.
-/
import ManiaChart.Proofs.Timing.Lookup
import ManiaChart.Proofs.Timing.Parting

namespace ManiaChart

section

variable {α : Type} {key : α → Int} {l l' : List α}

theorem mem_iff_of_filter_key_eq (h : ∀ t, l.filter (key · = t) = l'.filter (key · = t)) (a : α) :
    a ∈ l ↔ a ∈ l' := by
  have hiff : a ∈ l.filter (key · = key a) ↔ a ∈ l'.filter (key · = key a) := by rw [h]
  simpa using hiff

/-- Lists in the order of a key are the same when they have the same items at each
key, in the same order. -/
theorem eq_of_filter_key_eq (h : l.Pairwise fun a b => key a ≤ key b) (h' : l'.Pairwise fun a b => key a ≤ key b)
    (hfilter : ∀ t, l.filter (key · = t) = l'.filter (key · = t)) : l = l' := by
  have hmem := mem_iff_of_filter_key_eq hfilter
  induction l generalizing l' with
  | nil => exact (List.eq_nil_iff_forall_not_mem.2 fun a ha => List.not_mem_nil ((hmem a).2 ha)).symm
  | cons a rest ih =>
    cases l' with
    | nil => exact absurd ((hmem a).1 List.mem_cons_self) List.not_mem_nil
    | cons b rest' =>
      obtain ⟨hfirst, hrest⟩ := List.pairwise_cons.1 h
      obtain ⟨hfirst', hrest'⟩ := List.pairwise_cons.1 h'
      -- Both lists start with the least key, so with the first item of that key.
      have hle : key a ≤ key b := by
        rcases List.mem_cons.1 ((hmem b).2 List.mem_cons_self) with rfl | hb
        · exact Int.le_refl _
        · exact hfirst b hb
      have hle' : key b ≤ key a := by
        rcases List.mem_cons.1 ((hmem a).1 List.mem_cons_self) with rfl | ha
        · exact Int.le_refl _
        · exact hfirst' a ha
      have hhead := hfilter (key a)
      rw [List.filter_cons_of_pos (by simp), List.filter_cons_of_pos (by simpa using Int.le_antisymm hle' hle)] at hhead
      obtain ⟨rfl, -⟩ := List.cons.inj hhead
      have hfilter' : ∀ t, rest.filter (key · = t) = rest'.filter (key · = t) := fun t => by
        have ht := hfilter t
        rw [List.filter_cons, List.filter_cons] at ht
        split at ht
        · exact (List.cons.inj ht).2
        · exact ht
      rw [ih hrest hrest' hfilter' (mem_iff_of_filter_key_eq hfilter')]

end

namespace Timing

/-- Points that differ in nothing but the order of their milliseconds are taken in
the same order. -/
theorem align_congr {offset : Int} {points others : List TimingPoint}
    (h : ∀ t, pointsAt offset others t = pointsAt offset points t) : align offset others = align offset points := by
  have hfilter : ∀ (points : List TimingPoint) (t : Int), (align offset points).filter (·.1 = t) =
      (pointsAt offset points t).map fun point => (alignedTime offset point, point) := fun points t => by
    rw [align, filter_foldr_insertByTime, List.filter_map, pointsAt]
    rfl
  refine eq_of_filter_key_eq (align_ordered offset others) (align_ordered offset points) fun t => ?_
  rw [hfilter, hfilter, h]

/-- Whether a timing point sets a scroll speed: it defines no tempo, and the speed
is finite. -/
def setsSpeed (point : TimingPoint) : Bool := !point.definesTempo && (100 / -point.beatLength).isFinite

/-- What a timing has at each millisecond, by the points written there in the order
of the file. -/
structure Means (offset : Int) (points : List TimingPoint) (timing : Timing) : Prop where
  tempo_iff : ∀ t, (∃ tempo ∈ timing.tempoPoints, tempo.time = t) ↔
    ∃ point ∈ points, point.definesTempo = true ∧ alignedTime offset point = t
  /-- The last point that defines a tempo counts. -/
  beatLength : ∀ tempo ∈ timing.tempoPoints,
    ((pointsAt offset points tempo.time).filter (·.definesTempo)).getLast?.map (·.beatLength) = some tempo.beatLength
  tempo_ascending : timing.tempoPoints.Pairwise fun a b => a.time < b.time
  scroll_iff : ∀ t, (∃ scroll ∈ timing.scrollPoints.toList, scroll.time = t) ↔
    (∃ point ∈ points, setsSpeed point = true ∧ alignedTime offset point = t) ∨
      ∃ last, (pointsAt offset points t).getLast? = some last ∧ last.definesTempo = true
  /-- The last point that sets a scroll speed counts, and without one the speed is
  the standard one. -/
  multiplier : ∀ scroll ∈ timing.scrollPoints.toList,
    scroll.multiplier = (((pointsAt offset points scroll.time).filter setsSpeed).getLast?.map
      (100 / -·.beatLength)).getD 1
  scroll_ascending : timing.scrollPoints.toList.Pairwise fun a b => a.time < b.time

/-! ## The last point that counts -/

section Here

variable {here : List TimingPoint}

theorem tempoOf?_eq (here : List TimingPoint) :
    tempoOf? here = (here.filter (·.definesTempo)).getLast?.map (·.beatLength) := by
  have hfilter : here.filterMap tempo? = (here.filter (·.definesTempo)).map (·.beatLength) := by
    rw [← List.filterMap_eq_map, List.filterMap_filter]
    rfl
  rw [tempoOf?, hfilter, List.getLast?_map]

theorem filterMap_speed?_eq (here : List TimingPoint) :
    here.filterMap speed? = (here.filter setsSpeed).map (100 / -·.beatLength) := by
  rw [← List.filterMap_eq_map, List.filterMap_filter]
  rfl

theorem standard?_eq_some_iff {speed : Binary64} :
    standard? here = some speed ↔
      (∃ last, here.getLast? = some last ∧ last.definesTempo = true) ∧ speed = ScrollPoint.standard := by
  rw [standard?]
  cases hlast : here.getLast? with
  | none => simp
  | some last => cases hdefines : last.definesTempo <;> simp [hdefines, eq_comm (a := speed)]

theorem scrollOf?_eq (here : List TimingPoint) :
    scrollOf? here = ((here.filter setsSpeed).getLast?.map (100 / -·.beatLength)).or (standard? here) := by
  rw [scrollOf?, filterMap_speed?_eq, List.getLast?_map]

theorem isSome_scrollOf?_iff :
    (scrollOf? here).isSome = true ↔
      (∃ point ∈ here, setsSpeed point = true) ∨ ∃ last, here.getLast? = some last ∧ last.definesTempo = true := by
  rw [scrollOf?_eq, Option.isSome_or, Bool.or_eq_true, Option.isSome_map, List.getLast?_isSome]
  refine or_congr ?_ ?_
  · simp [List.filter_eq_nil_iff]
  · simp [Option.isSome_iff_exists, standard?_eq_some_iff]

theorem getD_of_scrollOf? {speed : Binary64} (h : scrollOf? here = some speed) :
    speed = ((here.filter setsSpeed).getLast?.map (100 / -·.beatLength)).getD 1 := by
  rw [scrollOf?_eq] at h
  cases hlast : (here.filter setsSpeed).getLast? with
  | some last =>
    rw [hlast] at h
    exact (Option.some.inj h).symm
  | none =>
    rw [hlast, Option.map_none, Option.none_or] at h
    exact (standard?_eq_some_iff.1 h).2

end Here

/-! ## The series -/

variable {offset : Int} {points : List TimingPoint} {timing : Timing} {skipped : List Int}

theorem exists_pointsAt_iff {t : Int} {p : TimingPoint → Prop} :
    (∃ point ∈ pointsAt offset points t, p point) ↔ ∃ point ∈ points, p point ∧ alignedTime offset point = t :=
  exists_congr fun point => by rw [mem_pointsAt, and_assoc, and_comm (b := p point)]

/-- The tempo points of a timing are where the points of a millisecond leave a
tempo. -/
theorem mem_tempoPoints_iff (h : ofPoints? offset points = some (timing, skipped)) {tempo : TempoPoint} :
    tempo ∈ timing.tempoPoints ↔ tempoOf? (pointsAt offset points tempo.time) = some tempo.beatLength := by
  rw [tempoPoints_of_ofPoints? h, ← tempo_align, ← Std.TreeMap.mem_toList_iff_getElem?_eq_some]
  simp only [Parted.tempoPoints, List.mem_map, Prod.exists]
  refine ⟨?_, fun hmem => ⟨_, _, hmem, rfl⟩⟩
  rintro ⟨time, beatLength, hmem, rfl⟩
  exact hmem

theorem exists_tempoPoint_iff (h : ofPoints? offset points = some (timing, skipped)) {t : Int} :
    (∃ tempo ∈ timing.tempoPoints, tempo.time = t) ↔
      ∃ point ∈ points, point.definesTempo = true ∧ alignedTime offset point = t := by
  have hsome : (∃ tempo ∈ timing.tempoPoints, tempo.time = t) ↔
      (tempoOf? (pointsAt offset points t)).isSome = true := by
    rw [Option.isSome_iff_exists]
    refine ⟨?_, ?_⟩
    · rintro ⟨tempo, hmem, rfl⟩
      exact ⟨tempo.beatLength, (mem_tempoPoints_iff h).1 hmem⟩
    · rintro ⟨beatLength, htempo⟩
      exact ⟨⟨t, beatLength⟩, (mem_tempoPoints_iff h).2 htempo, rfl⟩
  rw [hsome, isSome_tempoOf?_iff, exists_pointsAt_iff]

theorem exists_scrollPoint_iff (h : ofPoints? offset points = some (timing, skipped)) {t : Int} :
    (∃ scroll ∈ timing.scrollPoints.toList, scroll.time = t) ↔
      (∃ point ∈ points, setsSpeed point = true ∧ alignedTime offset point = t) ∨
        ∃ last, (pointsAt offset points t).getLast? = some last ∧ last.definesTempo = true := by
  have hsome : (∃ scroll ∈ timing.scrollPoints.toList, scroll.time = t) ↔
      (scrollOf? (pointsAt offset points t)).isSome = true := by
    rw [Option.isSome_iff_exists]
    refine ⟨?_, ?_⟩
    · rintro ⟨scroll, hmem, rfl⟩
      exact ⟨scroll.multiplier, (mem_scrollPoints_iff h).1 hmem⟩
    · rintro ⟨multiplier, hscroll⟩
      exact ⟨⟨t, multiplier⟩, (mem_scrollPoints_iff h).2 hscroll, rfl⟩
  rw [hsome, isSome_scrollOf?_iff, exists_pointsAt_iff]

theorem means_of_ofPoints? (h : ofPoints? offset points = some (timing, skipped)) : Means offset points timing where
  tempo_iff := fun _ => exists_tempoPoint_iff h
  beatLength := fun tempo hmem => by rw [← tempoOf?_eq, (mem_tempoPoints_iff h).1 hmem]
  tempo_ascending := timing.tempoPoints_ascending
  scroll_iff := fun _ => exists_scrollPoint_iff h
  multiplier := fun scroll hmem => getD_of_scrollOf? ((mem_scrollPoints_iff h).1 hmem)
  scroll_ascending := timing.scrollPoints_ordered

/-- **Timing points mean what each millisecond says.** They make a timing as soon as
one of them defines a tempo, and it has the tempo and scroll points that the points
of each millisecond leave there. The order of points at different milliseconds tells
nothing: with the same points at each millisecond, in the same order, the timing is
the same, and so are the skipped points, also when no timing is made. -/
theorem ofPoints?_means (offset : Int) (points : List TimingPoint) :
    (ofPoints? offset points = none ↔ ∀ point ∈ points, point.definesTempo = false) ∧
      (∀ timing skipped, ofPoints? offset points = some (timing, skipped) → Means offset points timing) ∧
      ∀ others, (∀ t, pointsAt offset others t = pointsAt offset points t) →
        ofPoints? offset others = ofPoints? offset points ∧
          (Parted.addAll {} (align offset others)).skipped = (Parted.addAll {} (align offset points)).skipped := by
  refine ⟨?_, fun timing skipped h => means_of_ofPoints? h, fun others h => ?_⟩
  · have hsome := isSome_ofPoints?_iff offset points
    rw [← Option.not_isSome_iff_eq_none, hsome]
    simp
  · simp only [ofPoints?, align_congr h, and_self]

/-! ## A crowded millisecond -/

/-- A tempo and a double scroll speed at one second, the first tempo of the chart,
and a second tempo at one second. -/
def crowded : List TimingPoint :=
  [{ time := 1000, beatLength := 400 }, { time := 1000, beatLength := -50, definesTempo := false },
    { time := 0, beatLength := 500 }, { time := 1000, beatLength := 300 }]

/-- The same points, the first tempo of the chart before the others. -/
def uncrossed : List TimingPoint :=
  [{ time := 0, beatLength := 500 }, { time := 1000, beatLength := 400 },
    { time := 1000, beatLength := -50, definesTempo := false }, { time := 1000, beatLength := 300 }]

theorem ofPoints?_means_crowded :
    ∃ timing skipped,
      ofPoints? 38 crowded = some (timing, skipped) ∧
      Means 38 crowded timing ∧
      (∀ t, pointsAt 38 uncrossed t = pointsAt 38 crowded t) ∧
      ofPoints? 38 uncrossed = some (timing, skipped) := by
  obtain ⟨hnone, hmeans, hreordered⟩ := ofPoints?_means 38 crowded
  have hmade : ofPoints? 38 crowded ≠ none := fun h => absurd (hnone.1 h) (by decide +kernel)
  obtain ⟨⟨timing, skipped⟩, hmade⟩ := Option.ne_none_iff_exists'.1 hmade
  have hhere : ∀ t, pointsAt 38 uncrossed t = pointsAt 38 crowded t := fun t => by
    have htimes : crowded.map (alignedTime 38) = [1038, 1038, 38, 1038] := by decide +kernel
    simp only [crowded, List.map_cons, List.map_nil, List.cons.injEq, and_true] at htimes
    obtain ⟨htempo, hscroll, hfirst, hlast⟩ := htimes
    simp only [pointsAt, uncrossed, crowded, List.filter_cons, List.filter_nil, htempo, hscroll, hfirst, hlast,
      decide_eq_true_eq]
    by_cases ht : 38 = t
    · have hother : ¬1038 = t := by omega
      simp only [ht, hother, if_true, if_false]
    · simp only [ht, if_false]
  exact ⟨timing, skipped, hmade, hmeans timing skipped hmade, hhere, (hreordered uncrossed hhere).1.trans hmade⟩

end Timing

end ManiaChart
