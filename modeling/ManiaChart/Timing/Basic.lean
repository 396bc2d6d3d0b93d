/-
The timing of a chart: its tempo points with the measure position each one
starts at, and its scroll points, both in order of time.

`Timing.ofPoints?` makes it from the timing points of a beatmap, shifted by an
offset. A tempo point also sets the scroll speed back to the standard one,
unless another timing point at its millisecond follows; of several points of
one kind at one millisecond the last one counts. `measureAt` counts measures
from the first tempo point, each stretch between tempo points at its own tempo.
-/
import Std.Data.TreeMap
import ManiaChart.Beatmap.Basic
import ManiaChart.Timing.Point

namespace ManiaChart

/-- A tempo point with the measure position where it starts. -/
structure TempoStretch where
  point : TempoPoint
  measureStart : Binary64
deriving DecidableEq

instance : Timed TempoStretch := ⟨fun stretch => stretch.point.time⟩

/-- Tempo and scroll speed along the time axis. There is always a tempo. -/
structure Timing where
  stretches : Array TempoStretch
  scrollPoints : Array ScrollPoint
  size_pos : 0 < stretches.size
  stretches_ordered : stretches.toList.Pairwise fun a b => a.point.time < b.point.time
  scrollPoints_ordered : scrollPoints.toList.Pairwise fun a b => a.time < b.time

namespace Timing

/-! ## Timing points in order of time -/

/-- The millisecond of a timing point, shifted by `offset` before its fraction
is dropped. -/
def alignedTime (offset : Int) (point : TimingPoint) : Int :=
  (point.time + Binary64.ofInt offset).toInt64

/-- Puts a timing point before the first one that is not earlier. -/
def insertByTime (point : Int × TimingPoint) : List (Int × TimingPoint) → List (Int × TimingPoint)
  | [] => [point]
  | first :: rest =>
    if point.1 ≤ first.1 then point :: first :: rest else first :: insertByTime point rest

/-- Timing points with their milliseconds, in order of time; points of one
millisecond keep their order. -/
def align (offset : Int) (points : List TimingPoint) : List (Int × TimingPoint) :=
  (points.map fun point => (alignedTime offset point, point)).foldr insertByTime []

theorem mem_insertByTime {point other : Int × TimingPoint} {points : List (Int × TimingPoint)} :
    other ∈ insertByTime point points ↔ other = point ∨ other ∈ points := by
  fun_induction insertByTime point points with
  | case1 => simp
  | case2 => simp
  | case3 first rest _ ih =>
    simp only [List.mem_cons, ih]
    constructor
    · rintro (h | h | h) <;> simp [h]
    · rintro (h | h | h) <;> simp [h]

theorem insertByTime_ordered {point : Int × TimingPoint} {points : List (Int × TimingPoint)}
    (h : points.Pairwise fun a b => a.1 ≤ b.1) :
    (insertByTime point points).Pairwise fun a b => a.1 ≤ b.1 := by
  fun_induction insertByTime point points with
  | case1 => simp
  | case2 first rest hle =>
    refine List.pairwise_cons.2 ⟨fun other hmem => ?_, h⟩
    rcases List.mem_cons.1 hmem with rfl | hmem
    · exact hle
    · exact Int.le_trans hle ((List.pairwise_cons.1 h).1 other hmem)
  | case3 first rest hlt ih =>
    obtain ⟨hfirst, hrest⟩ := List.pairwise_cons.1 h
    refine List.pairwise_cons.2 ⟨fun other hmem => ?_, ih hrest⟩
    rcases mem_insertByTime.1 hmem with rfl | hmem
    · omega
    · exact hfirst other hmem

theorem align_ordered (offset : Int) (points : List TimingPoint) :
    (align offset points).Pairwise fun a b => a.1 ≤ b.1 := by
  unfold align
  induction points.map fun point => (alignedTime offset point, point) with
  | nil => exact List.Pairwise.nil
  | cons point rest ih => exact insertByTime_ordered ih

/-! ## Tempo and scroll speed parted -/

structure Parted where
  tempo : Std.TreeMap Int Binary64 := ∅
  scroll : Std.TreeMap Int Binary64 := ∅
  /-- The times, as written, of points whose scroll speed is not finite. -/
  skipped : Array Int := #[]

namespace Parted

/-- Takes in a timing point at a millisecond. `next?` is the millisecond of the
point after it. -/
def add (parted : Parted) (time : Int) (point : TimingPoint) (next? : Option Int) : Parted :=
  if point.definesTempo then
    { parted with
      tempo := parted.tempo.insert time point.beatLength
      scroll := if next? = some time then parted.scroll
        else parted.scroll.insertIfNew time ScrollPoint.standard }
  else
    let multiplier := 100 / -point.beatLength
    if multiplier.isFinite then { parted with scroll := parted.scroll.insert time multiplier }
    else { parted with skipped := parted.skipped.push point.time.toInt64 }

def addAll (parted : Parted) : List (Int × TimingPoint) → Parted
  | [] => parted
  | (time, point) :: rest => (parted.add time point (rest.head?.map Prod.fst)).addAll rest

/-- The tempo points in order of time. -/
def tempoPoints (parted : Parted) : List TempoPoint :=
  parted.tempo.toList.map fun (time, beatLength) => { time, beatLength }

/-- The scroll points in order of time. -/
def scrollPoints (parted : Parted) : List ScrollPoint :=
  parted.scroll.toList.map fun (time, multiplier) => { time, multiplier }

theorem toList_ordered (map : Std.TreeMap Int Binary64) :
    map.toList.Pairwise fun a b => a.1 < b.1 :=
  map.ordered_keys_toList.imp fun h => Std.compare_eq_lt.1 h

theorem tempoPoints_ordered (parted : Parted) :
    parted.tempoPoints.Pairwise fun a b => a.time < b.time :=
  List.pairwise_map.2 (toList_ordered parted.tempo)

theorem scrollPoints_ordered (parted : Parted) :
    parted.scrollPoints.Pairwise fun a b => a.time < b.time :=
  List.pairwise_map.2 (toList_ordered parted.scroll)

end Parted

/-! ## Measure positions of tempo points -/

/-- Tempo points with their measure positions: each one starts where the
stretch before it ends. -/
def stretchesFrom (start : Binary64) : List TempoPoint → List TempoStretch
  | [] => []
  | [point] => [⟨point, start⟩]
  | point :: next :: rest =>
    ⟨point, start⟩ :: stretchesFrom (start + point.measuresTo next.time) (next :: rest)

theorem map_point_stretchesFrom (start : Binary64) (points : List TempoPoint) :
    (stretchesFrom start points).map TempoStretch.point = points := by
  fun_induction stretchesFrom start points <;> simp_all

/-- The timing of parted timing points, none when no point defines a tempo. -/
def ofParted? (parted : Parted) : Option Timing :=
  let stretches := stretchesFrom 0 parted.tempoPoints
  if h : 0 < stretches.length then
    some {
      stretches := stretches.toArray
      scrollPoints := parted.scrollPoints.toArray
      size_pos := by simpa using h
      stretches_ordered := by
        have h := parted.tempoPoints_ordered
        rw [← map_point_stretchesFrom 0 parted.tempoPoints, List.pairwise_map] at h
        exact h
      scrollPoints_ordered := parted.scrollPoints_ordered }
  else none

/-- The timing of timing points shifted by `offset` milliseconds, none when no
point defines a tempo; with it the written times of points that are skipped
because their scroll speed is not finite, in order of time. -/
def ofPoints? (offset : Int) (points : List TimingPoint) : Option (Timing × List Int) :=
  let parted := Parted.addAll {} (align offset points)
  (ofParted? parted).map fun timing => (timing, parted.skipped.toList)

/-! ## Looking up -/

theorem activeIndex_lt (timing : Timing) (t : Int) :
    Timed.countUpTo timing.stretches t - 1 < timing.stretches.size := by
  have h := Timed.countUpTo_le timing.stretches t
  have := timing.size_pos
  omega

/-- The stretch a time falls into, the first one for any earlier time. -/
def stretchAt (timing : Timing) (t : Int) : TempoStretch :=
  have := timing.activeIndex_lt t
  timing.stretches[Timed.countUpTo timing.stretches t - 1]

/-- The tempo point active at a time. -/
def tempoAt (timing : Timing) (t : Int) : TempoPoint := (timing.stretchAt t).point

/-- Beats per minute at a time. -/
def bpmAt (timing : Timing) (t : Int) : Binary64 := (timing.tempoAt t).bpm

def scrollAt (timing : Timing) (t : Int) : Binary64 :=
  match Timed.active? timing.scrollPoints t with
  | some point => point.multiplier
  | none => ScrollPoint.standard

/-- The measure position of a time: zero at the first tempo point, negative
before it. -/
def measureAt (timing : Timing) (t : Int) : Binary64 :=
  let stretch := timing.stretchAt t
  stretch.measureStart + stretch.point.measuresTo t

/-- The tempo points in order of time. -/
def tempoPoints (timing : Timing) : List TempoPoint :=
  timing.stretches.toList.map TempoStretch.point

end Timing

end ManiaChart
