/-
Counting the notes to hit. The count of a chart goes through the timelines and
the lanes of each, and a long note counts at its head, so it is the number of
cells that hold a note that counts (`Chart.totalNotes_eq_length_hits`). Going
through the lanes and the timelines of each gives the same number
(`Chart.totalNotes_eq_sum`).
-/
import Mathlib.Algebra.BigOperators.Group.Finset.Basic
import Mathlib.Data.List.Nodup
import ManiaChart.Chart.Basic

namespace ManiaChart

/-- Whether the note of an id counts: the tail of a long note does not, its head
does. -/
def NoteStore.counts (store : NoteStore) (id : NoteId) : Bool :=
  (store.get? id).any fun note => !note.isLongTail

namespace Timeline

theorem laneNotes_eq (timeline : Timeline) :
    timeline.laneNotes =
      (List.range timeline.laneCount).filterMap fun lane => (timeline.note? lane).map (lane, ·) := by
  have hcells : ∀ cells : List (Option NoteId),
      (cells.mapIdx fun lane cell => cell.map (lane, ·)).filterMap id =
        (List.range cells.length).filterMap fun lane => (cells[lane]?.join).map (lane, ·) := by
    intro cells
    induction cells using List.reverseRecOn with
    | nil => rfl
    | append_singleton rest cell ih =>
      rw [List.mapIdx_concat, List.filterMap_append, ih, List.length_append, List.length_singleton,
        List.range_succ, List.filterMap_append]
      congr 1
      · refine List.filterMap_congr fun lane hlane => ?_
        rw [List.getElem?_append_left (List.mem_range.1 hlane)]
      · cases cell <;> simp
  rw [laneNotes, hcells, Array.length_toList]
  simp only [Array.getElem?_toList, note?, laneCount]

theorem lane_lt_of_note? {timeline : Timeline} {lane : Nat} {id : NoteId}
    (h : timeline.note? lane = some id) : lane < timeline.laneCount := by
  by_contra hge
  simp only [note?, Array.getElem?_eq_none (Nat.le_of_not_lt hge)] at h
  cases h

/-- The lanes of a timeline that hold a note that counts. -/
def hitLanes (timeline : Timeline) (store : NoteStore) : List Nat :=
  (List.range timeline.laneCount).filter fun lane => (timeline.note? lane).any store.counts

theorem mem_hitLanes {timeline : Timeline} {store : NoteStore} {lane : Nat} :
    lane ∈ timeline.hitLanes store ↔ ∃ id, timeline.note? lane = some id ∧ store.counts id = true := by
  simp only [hitLanes, List.mem_filter, List.mem_range, Option.any_eq_true]
  refine ⟨fun h => h.2, fun h => ⟨?_, h⟩⟩
  obtain ⟨id, hid, -⟩ := h
  exact lane_lt_of_note? hid

theorem length_hitLanes (timeline : Timeline) (store : NoteStore) :
    (timeline.hitLanes store).length =
      (timeline.laneNotes.filterMap fun (_, id) => store.get? id).countP fun note => !note.isLongTail := by
  rw [hitLanes, ← List.countP_eq_length_filter, laneNotes_eq, List.filterMap_filterMap, List.countP_filterMap]
  refine List.countP_congr fun lane _ => ?_
  cases timeline.note? lane with
  | none => simp
  | some id => cases hnote : store.get? id <;> simp [NoteStore.counts, hnote]

end Timeline

namespace Chart

/-- The cells of a chart that hold a note that counts. -/
def hits (chart : Chart) : List (Int × Nat) :=
  chart.timelines.flatMap fun timeline => (timeline.hitLanes chart.notes).map (timeline.milliTime, ·)

theorem mem_hits {chart : Chart} {t : Int} {lane : Nat} :
    (t, lane) ∈ chart.hits ↔ ∃ timeline ∈ chart.timelines, timeline.milliTime = t ∧
      ∃ id, timeline.note? lane = some id ∧ chart.notes.counts id = true := by
  simp only [hits, List.mem_flatMap, List.mem_map, Prod.mk.injEq, ← Timeline.mem_hitLanes]
  refine ⟨?_, ?_⟩
  · rintro ⟨timeline, hmem, other, hlane, rfl, rfl⟩
    exact ⟨timeline, hmem, rfl, hlane⟩
  · rintro ⟨timeline, hmem, rfl, hlane⟩
    exact ⟨timeline, hmem, lane, hlane, rfl, rfl⟩

theorem totalNotes_eq_length_hits (chart : Chart) : chart.totalNotes = chart.hits.length := by
  rw [totalNotes, hits, List.filterMap_flatMap, List.countP_flatMap, List.length_flatMap]
  congr 1
  refine List.map_congr_left fun timeline _ => ?_
  rw [List.length_map, Timeline.length_hitLanes]
  rfl

theorem nodup_hits {chart : Chart}
    (h : chart.timelines.Pairwise fun a b => a.milliTime < b.milliTime) : chart.hits.Nodup := by
  refine List.nodup_flatMap.2 ⟨fun timeline _ => ?_, h.imp fun {a b} hlt => ?_⟩
  · exact (List.nodup_range.filter _).map fun a b heq => (Prod.mk.inj heq).2
  · intro cell ha hb
    obtain ⟨_, -, rfl⟩ := List.mem_map.1 ha
    obtain ⟨_, -, heq⟩ := List.mem_map.1 hb
    exact absurd (congrArg Prod.fst heq) (Int.ne_of_gt hlt)

/-! ## Lane by lane -/

theorem countP_laneNotes (chart : Chart) (lane : Nat) :
    ((chart.laneNotes lane).countP fun note => !note.isLongTail) =
      chart.timelines.countP fun timeline => (timeline.note? lane).any chart.notes.counts := by
  rw [laneNotes, List.countP_filterMap, List.countP_filterMap]
  refine List.countP_congr fun timeline _ => ?_
  cases timeline.note? lane with
  | none => simp
  | some id => cases hnote : chart.notes.get? id <;> simp [NoteStore.counts, hnote]

theorem countP_range (p : Nat → Bool) (n : Nat) :
    (List.range n).countP p = ∑ lane ∈ Finset.range n, if p lane then 1 else 0 := by
  induction n with
  | zero => rfl
  | succ n ih => rw [List.range_succ, List.countP_append, ih, Finset.sum_range_succ, List.countP_singleton]

/-- Over timelines with the same lanes, the notes that count may be counted lane
by lane. -/
theorem totalNotes_eq_sum {chart : Chart} {lanes : Nat}
    (h : ∀ timeline ∈ chart.timelines, timeline.laneCount = lanes) :
    chart.totalNotes =
      ∑ lane ∈ Finset.range lanes, (chart.laneNotes lane).countP fun note => !note.isLongTail := by
  simp only [totalNotes_eq_length_hits, hits, List.length_flatMap, List.length_map, countP_laneNotes]
  generalize chart.timelines = timelines at h
  induction timelines with
  | nil => simp
  | cons timeline rest ih =>
    have hlanes : timeline.laneCount = lanes := h timeline List.mem_cons_self
    simp only [List.map_cons, List.sum_cons, List.countP_cons, Finset.sum_add_distrib]
    rw [ih fun other hmem => h other (List.mem_cons_of_mem _ hmem), Timeline.hitLanes,
      ← List.countP_eq_length_filter, hlanes, countP_range, Nat.add_comm]

end Chart

end ManiaChart
