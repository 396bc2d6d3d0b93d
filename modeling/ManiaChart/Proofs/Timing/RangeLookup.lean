/-
All ways of looking up a series give the same point. In an array of points in order of
time, points of one millisecond among them, the search for the active point finds the
last one that is not after the time, or else the first of all
(`Timed.activeIndex?_eq_some_iff`). A range of the keys of an ordered map leads to the
same point (`entryAt?_map`).

So the timing that is looked up in ordered maps agrees with the one that is searched
(`KeyedTiming.agrees_of_ofPoints?`), and either with a search of its own lists of
points.
-/
import ManiaChart.Proofs.Timing.Lookup
import ManiaChart.Proofs.Timing.Parting
import ManiaChart.Timing.Keyed

namespace ManiaChart

/-! ## Searching an array -/

namespace Timed

variable {α : Type} [Timed α] {points : Array α} {t : Int} {i : Nat}

/-- Whether the point at an index is the active one: the last one that is not after
the time, or the first one when all are. -/
def IsActive (points : Array α) (t : Int) (i : Nat) : Prop :=
  ∃ hi : i < points.size, (time points[i] ≤ t ∧ ∀ j (hj : j < points.size), i < j → t < time points[j]) ∨
    (i = 0 ∧ ∀ j (hj : j < points.size), t < time points[j])

instance (points : Array α) : Decidable (Sorted points) :=
  inferInstanceAs (Decidable (points.toList.Pairwise fun a b => time a ≤ time b))

theorem activeIndex?_eq_some_iff (hs : Sorted points) :
    activeIndex? points t = some i ↔ IsActive points t i := by
  have hle := countUpTo_le points t
  have hsearch : activeIndex? points t = some i ↔ 0 < points.size ∧ countUpTo points t - 1 = i := by
    rw [activeIndex?]
    split
    next hempty => simp_all
    next hne =>
      have hpos : 0 < points.size := Array.size_pos_iff.2 (by simpa using hne)
      simp [hpos]
  rw [hsearch]
  refine ⟨?_, ?_⟩
  · rintro ⟨hpos, rfl⟩
    refine ⟨by omega, ?_⟩
    by_cases hnone : countUpTo points t = 0
    · refine .inr ⟨by omega, fun j hj => ?_⟩
      have hspec := countUpTo_spec hs t hj
      omega
    · refine .inl ⟨(countUpTo_spec hs t (by omega)).1 (by omega), fun j hj hlater => ?_⟩
      have hspec := countUpTo_spec hs t hj
      omega
  · rintro ⟨hi, ⟨hreached, hlater⟩ | ⟨rfl, hlater⟩⟩
    · have hcounted := (countUpTo_spec hs t hi).2 hreached
      refine ⟨by omega, ?_⟩
      -- Were another point counted, it would not be after the time.
      by_cases hmore : i + 1 < countUpTo points t
      · have hback := (countUpTo_spec hs t (by omega : i + 1 < points.size)).1 hmore
        have hafter := hlater (i + 1) (by omega) (Nat.lt_succ_self i)
        omega
      · omega
    · have hspec := countUpTo_spec hs t hi
      have hafter := hlater 0 hi
      exact ⟨hi, by omega⟩

/-- The active point is the one at the active index. -/
theorem active?_eq_bind (points : Array α) (t : Int) :
    active? points t = (activeIndex? points t).bind (points[·]?) := by
  rw [active?, activeIndex?]
  split
  next hempty => simp_all
  next => rfl

theorem active?_eq_none_iff (points : Array α) (t : Int) : active? points t = none ↔ points = #[] := by
  have hle := countUpTo_le points t
  rw [active?, Array.getElem?_eq_none_iff, ← Array.size_eq_zero_iff]
  omega

end Timed

/-! ## Looking up an ordered map -/

section Ranges

variable {α β : Type} {map : Std.TreeMap Int β} {t : Int}

theorem toList_ofList {entries : List (Int × β)} (h : entries.Pairwise fun a b => a.1 < b.1) :
    (Std.TreeMap.ofList entries).toList = entries := by
  have hordered : (Std.TreeMap.ofList entries).toList.Pairwise fun a b => a.1 < b.1 :=
    (Std.TreeMap.ordered_keys_toList).imp fun hlt => Std.compare_eq_lt.1 hlt
  have hdistinct : entries.Pairwise fun a b => ¬compare a.1 b.1 = .eq := by
    refine h.imp fun hlt heq => ?_
    rw [Std.compare_eq_iff_eq] at heq
    omega
  have hget : ∀ {time value}, (time, value) ∈ entries → (Std.TreeMap.ofList entries)[time]? = some value :=
    fun hmem => Std.TreeMap.getElem?_ofList_of_mem Std.ReflCmp.compare_self hdistinct hmem
  have hnodup : ∀ {l : List (Int × β)}, (l.Pairwise fun a b => a.1 < b.1) → l.Nodup := fun hl =>
    hl.imp fun hlt heq => absurd (congrArg Prod.fst heq) (Int.ne_of_lt hlt)
  refine List.Perm.eq_of_pairwise (fun a b _ _ hab hba => absurd hab (Int.lt_asymm hba)) hordered h ?_
  refine (List.perm_ext_iff_of_nodup (hnodup hordered) (hnodup h)).2 fun ⟨time, value⟩ => ?_
  rw [Std.TreeMap.mem_toList_iff_getElem?_eq_some]
  refine ⟨fun hvalue => ?_, hget⟩
  have hkey : ∃ other, (time, other) ∈ entries := by
    have hmem : time ∈ Std.TreeMap.ofList entries :=
      Std.TreeMap.mem_iff_isSome_getElem?.2 (Option.isSome_of_eq_some hvalue)
    simpa using hmem
  obtain ⟨other, hother⟩ := hkey
  rw [hget hother] at hvalue
  obtain rfl := Option.some.inj hvalue
  exact hother

theorem entryAt?_eq (map : Std.TreeMap Int β) (t : Int) :
    entryAt? map t = (map.toList.filter (·.1 ≤ t)).getLast?.or map.toList.head? := by
  have hrange : map[*...=t].toList = map.toList.filter (·.1 ≤ t) := by
    rw [Std.TreeMap.toList_ric compare]
    refine List.filter_congr fun entry _ => ?_
    rw [Bool.eq_iff_iff, Std.isLE_compare, decide_eq_true_iff]
  rw [entryAt?, hrange]

/-- Entries that hold points of their own keys are looked up as the points are
searched. -/
theorem entryAt?_map [Timed α] {f : Int × β → α} (h : ∀ entry ∈ map.toList, Timed.time (f entry) = entry.1) :
    (entryAt? map t).map f = Timed.active? (map.toList.map f).toArray t := by
  have hsorted : Timed.Sorted (map.toList.map f).toArray := by
    refine List.pairwise_map.2 (map.ordered_keys_toList.imp_of_mem fun {a b} ha hb hlt => ?_)
    rw [h a ha, h b hb]
    exact Int.le_of_lt (Std.compare_eq_lt.1 hlt)
  have hfilter : (map.toList.map f).filter (Timed.time · ≤ t) = (map.toList.filter (·.1 ≤ t)).map f := by
    rw [List.filter_map]
    refine congrArg (List.map f) (List.filter_congr fun entry hmem => ?_)
    simp only [Function.comp_apply, h entry hmem]
  rw [entryAt?_eq, Timed.active?_eq hsorted, hfilter, List.getLast?_map, List.head?_map, Option.map_or]

end Ranges

/-! ## Both kinds of timing -/

namespace KeyedTiming

variable {offset : Int} {points : List TimingPoint} {keyed : KeyedTiming} {timing : Timing} {skipped : List Int}
  {t : Int}

theorem series_of_ofPoints? (h : ofPoints? offset points = some (keyed, skipped)) :
    keyed.stretches.toList =
        (Timing.stretchesFrom 0 (Timing.Parted.addAll {} (Timing.align offset points)).tempoPoints).map
          (fun stretch => (stretch.point.time, stretch)) ∧
      keyed.speeds = (Timing.Parted.addAll {} (Timing.align offset points)).scroll := by
  obtain ⟨made, hmade, hpair⟩ := Option.map_eq_some_iff.1 h
  obtain ⟨rfl, -⟩ := Prod.mk.inj hpair
  rw [ofParted?] at hmade
  split at hmade
  · cases hmade
  · cases hmade
    have hordered := (Timing.Parted.addAll {} (Timing.align offset points)).tempoPoints_ordered
    rw [← Timing.map_point_stretchesFrom 0 (Timing.Parted.tempoPoints _), List.pairwise_map] at hordered
    exact ⟨toList_ofList (List.pairwise_map.2 hordered), rfl⟩

theorem time_of_mem_stretches (h : ofPoints? offset points = some (keyed, skipped)) {entry : Int × TempoStretch}
    (hmem : entry ∈ keyed.stretches.toList) : entry.2.point.time = entry.1 := by
  rw [(series_of_ofPoints? h).1] at hmem
  obtain ⟨stretch, -, rfl⟩ := List.mem_map.1 hmem
  rfl

theorem tempoAt?_eq (h : ofPoints? offset points = some (keyed, skipped)) (t : Int) :
    keyed.tempoAt? t = Timed.active? keyed.tempoPoints.toArray t := by
  have hlookup : (entryAt? keyed.stretches t).map (fun entry => entry.2.point) =
      Timed.active? (keyed.stretches.toList.map fun entry => entry.2.point).toArray t :=
    entryAt?_map fun entry hmem => time_of_mem_stretches h hmem
  rw [tempoAt?, stretchAt?, Option.map_map]
  exact hlookup

theorem scrollAt_eq (keyed : KeyedTiming) (t : Int) :
    keyed.scrollAt t = ((Timed.active? keyed.scrollPoints.toArray t).map (·.multiplier)).getD ScrollPoint.standard := by
  have hlookup : (entryAt? keyed.speeds t).map (fun entry => ScrollPoint.mk entry.1 entry.2) =
      Timed.active? keyed.scrollPoints.toArray t := entryAt?_map fun _ _ => rfl
  rw [← hlookup, scrollAt]
  cases entryAt? keyed.speeds t <;> rfl

theorem isSome_ofPoints?_iff (offset : Int) (points : List TimingPoint) :
    (ofPoints? offset points).isSome = true ↔ ∃ point ∈ points, point.definesTempo = true := by
  rw [← Timing.tempoPoints_ne_nil_iff offset, ofPoints?, Option.isSome_map, ofParted?, Timing.Parted.tempoPoints,
    ne_eq, List.map_eq_nil_iff, ← List.isEmpty_iff, Std.TreeMap.isEmpty_toList]
  split
  next hempty => simp [hempty]
  next hne => simp [hne]

/-- A timing that is searched is made of the same points, and the same ones are
skipped. -/
theorem exists_timing (h : ofPoints? offset points = some (keyed, skipped)) :
    ∃ timing, Timing.ofPoints? offset points = some (timing, skipped) := by
  have htempo := (isSome_ofPoints?_iff offset points).1 (Option.isSome_of_eq_some h)
  obtain ⟨⟨timing, skipped'⟩, hmade⟩ :=
    Option.isSome_iff_exists.1 ((Timing.isSome_ofPoints?_iff offset points).2 htempo)
  obtain ⟨_, -, hpair⟩ := Option.map_eq_some_iff.1 h
  obtain ⟨_, -, hpair'⟩ := Option.map_eq_some_iff.1 hmade
  obtain rfl : skipped = skipped' := (Prod.mk.inj hpair).2.symm.trans (Prod.mk.inj hpair').2
  exact ⟨timing, hmade⟩

/-- How a timing in ordered maps goes with one that is searched. -/
structure Agrees (keyed : KeyedTiming) (timing : Timing) : Prop where
  tempoPoints : keyed.tempoPoints = timing.tempoPoints
  scrollPoints : keyed.scrollPoints = timing.scrollPoints.toList
  stretchAt : ∀ t, keyed.stretchAt? t = some (timing.stretchAt t)
  tempoAt : ∀ t, keyed.tempoAt? t = some (timing.tempoAt t)
  scrollAt : ∀ t, keyed.scrollAt t = timing.scrollAt t

theorem agrees_of_ofPoints? (h : ofPoints? offset points = some (keyed, skipped))
    (h' : Timing.ofPoints? offset points = some (timing, skipped)) : keyed.Agrees timing := by
  obtain ⟨hstretches, hspeeds⟩ := series_of_ofPoints? h
  obtain ⟨hstretches', hscroll'⟩ := Timing.series_of_ofPoints? h'
  have hscroll : keyed.scrollPoints = timing.scrollPoints.toList := by
    rw [scrollPoints, hspeeds, hscroll', Timing.Parted.scrollPoints]
  have hsnd : keyed.stretches.toList.map Prod.snd = timing.stretches.toList := by
    rw [hstretches, hstretches', List.map_map]
    exact List.map_id _
  have hstretchAt : ∀ t, keyed.stretchAt? t = some (timing.stretchAt t) := fun t => by
    rw [stretchAt?, entryAt?_map fun entry hmem => time_of_mem_stretches h hmem, hsnd, Array.toArray_toList,
      Timed.active?, Array.getElem?_eq_getElem (timing.activeIndex_lt t), Timing.stretchAt]
  refine ⟨?_, hscroll, hstretchAt, fun t => ?_, fun t => ?_⟩
  · rw [tempoPoints, Timing.tempoPoints, ← hsnd, List.map_map]
    rfl
  · rw [tempoAt?, hstretchAt, Option.map_some, Timing.tempoAt]
  · rw [scrollAt_eq, hscroll, Array.toArray_toList, Timing.scrollAt]
    cases Timed.active? timing.scrollPoints t <;> rfl

end KeyedTiming

/-- **All look-ups agree.** In a series in order of time the search finds the last
point that is not after the time, the first one when there is none, and nothing in an
empty series only. What a timing finds in a range of keys is what the search finds in
the list of its points: there always is a tempo, and without scroll points the speed
is the standard one. -/
theorem lookups_agree :
    (∀ {α : Type} [Timed α] {points : Array α}, Timed.Sorted points → ∀ t,
      (∀ i, Timed.activeIndex? points t = some i ↔ Timed.IsActive points t i) ∧
        Timed.active? points t = (Timed.activeIndex? points t).bind (points[·]?) ∧
        Timed.active? points t = (points.toList.filter (Timed.time · ≤ t)).getLast?.or points.toList.head? ∧
        (Timed.active? points t = none ↔ points = #[])) ∧
      ∀ offset points,
        (KeyedTiming.ofPoints? offset points = none ↔ Timing.ofPoints? offset points = none) ∧
          ∀ keyed skipped, KeyedTiming.ofPoints? offset points = some (keyed, skipped) →
            (∀ t, ∃ tempo, keyed.tempoAt? t = some tempo ∧
              Timed.active? keyed.tempoPoints.toArray t = some tempo) ∧
            (∀ t, keyed.scrollAt t =
              ((Timed.active? keyed.scrollPoints.toArray t).map (·.multiplier)).getD 1) ∧
            ∃ timing, Timing.ofPoints? offset points = some (timing, skipped) ∧ keyed.Agrees timing := by
  refine ⟨fun {α} _ {points} hs t => ?_, fun offset points => ⟨?_, fun keyed skipped h => ?_⟩⟩
  · exact ⟨fun _ => Timed.activeIndex?_eq_some_iff hs, Timed.active?_eq_bind points t, Timed.active?_eq hs t,
      Timed.active?_eq_none_iff points t⟩
  · rw [← Option.not_isSome_iff_eq_none, ← Option.not_isSome_iff_eq_none, KeyedTiming.isSome_ofPoints?_iff,
      Timing.isSome_ofPoints?_iff]
  · obtain ⟨timing, hmade⟩ := KeyedTiming.exists_timing h
    have hagrees := KeyedTiming.agrees_of_ofPoints? h hmade
    refine ⟨fun t => ⟨timing.tempoAt t, hagrees.tempoAt t, ?_⟩, KeyedTiming.scrollAt_eq keyed, timing, hmade, hagrees⟩
    rw [← KeyedTiming.tempoAt?_eq h, hagrees.tempoAt]

/-! ## Two points at one millisecond -/

/-- Scroll points, two of them at one millisecond. -/
def doubled : Array ScrollPoint := #[⟨100, 1⟩, ⟨200, 2⟩, ⟨200, 4⟩, ⟨300, 3⟩]

/-- Two tempos, the later one written first, and two scroll points at one
millisecond between them. -/
def doubledPoints : List TimingPoint :=
  [{ time := 1000, beatLength := 250 }, { time := 0, beatLength := 500 },
    { time := 500, beatLength := -50, definesTempo := false },
    { time := 500, beatLength := -25, definesTempo := false }]

theorem lookups_agree_doubled :
    (Timed.Sorted doubled ∧ Timed.activeIndex? doubled 250 = some 2 ∧
        Timed.active? doubled 250 = some ⟨200, 4⟩ ∧ Timed.active? doubled 99 = some ⟨100, 1⟩) ∧
      ∃ keyed skipped, KeyedTiming.ofPoints? 38 doubledPoints = some (keyed, skipped) ∧
        keyed.tempoAt? 0 = some ⟨38, 500⟩ ∧ keyed.tempoAt? 1037 = some ⟨38, 500⟩ ∧
        keyed.tempoAt? 1038 = some ⟨1038, 250⟩ ∧ keyed.scrollAt 537 = 1 ∧ keyed.scrollAt 538 = 4 := by
  obtain ⟨hsearch, hranges⟩ := lookups_agree
  have hsorted : Timed.Sorted doubled := by decide +kernel
  have hactive : Timed.IsActive doubled 250 2 := by
    refine ⟨by decide, .inl ⟨by decide +kernel, fun j hj hlater => ?_⟩⟩
    have hsize : j < 4 := hj
    obtain rfl : j = 3 := by omega
    show (250 : Int) < 300
    decide
  have hmade : (KeyedTiming.ofPoints? 38 doubledPoints).any (fun made => decide
      (made.1.tempoPoints = [⟨38, 500⟩, ⟨1038, 250⟩] ∧
        made.1.scrollPoints = [⟨38, 1⟩, ⟨538, 4⟩, ⟨1038, 1⟩])) = true := by decide +kernel
  obtain ⟨⟨keyed, skipped⟩, hmade, hseries⟩ := (Option.any_eq_true ..).1 hmade
  obtain ⟨htempo, hscroll⟩ := of_decide_eq_true hseries
  obtain ⟨htempoAt, hscrollAt, -⟩ := (hranges 38 doubledPoints).2 keyed skipped hmade
  have htempoSorted : Timed.Sorted keyed.tempoPoints.toArray := by
    rw [htempo]
    decide +kernel
  have hscrollSorted : Timed.Sorted keyed.scrollPoints.toArray := by
    rw [hscroll]
    decide +kernel
  have htempoLast : ∀ t, keyed.tempoAt? t =
      (([⟨38, 500⟩, ⟨1038, 250⟩] : List TempoPoint).filter (·.time ≤ t)).getLast?.or (some ⟨38, 500⟩) := fun t => by
    obtain ⟨tempo, htempoAt, hsearched⟩ := htempoAt t
    rw [htempoAt, ← hsearched, (hsearch htempoSorted t).2.2.1, htempo]
    rfl
  have hscrollLast : ∀ t, keyed.scrollAt t =
      (((([⟨38, 1⟩, ⟨538, 4⟩, ⟨1038, 1⟩] : List ScrollPoint).filter (·.time ≤ t)).getLast?.or
        (some ⟨38, 1⟩)).map (·.multiplier)).getD 1 := fun t => by
    rw [hscrollAt, (hsearch hscrollSorted t).2.2.1, hscroll]
    rfl
  refine ⟨⟨hsorted, ((hsearch hsorted 250).1 2).2 hactive, ?_, ?_⟩, keyed, skipped, hmade, ?_, ?_, ?_, ?_, ?_⟩
  · exact (hsearch hsorted 250).2.2.1.trans (by decide +kernel)
  · exact (hsearch hsorted 99).2.2.1.trans (by decide +kernel)
  · exact (htempoLast 0).trans (by decide +kernel)
  · exact (htempoLast 1037).trans (by decide +kernel)
  · exact (htempoLast 1038).trans (by decide +kernel)
  · exact (hscrollLast 537).trans (by decide +kernel)
  · exact (hscrollLast 538).trans (by decide +kernel)

end ManiaChart
