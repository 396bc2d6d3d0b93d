/-
What the operations of a draft do, millisecond by millisecond.

`Draft.timelineAt` is the view all of it is told in: a timeline that nothing
was written to yet reads as its seed, so an operation changes the timelines at
the milliseconds it writes to and no others (`timelineAt_write`,
`timelineAt_place`). Which milliseconds have a timeline of their own is told
apart, by `Draft.Has`. A placement writes once for each of its notes
(`Placement.ends`), in order.
-/
import ManiaChart.Conversion.Placement

namespace ManiaChart

/-! ## The ends of a placement -/

/-- A note put on a lane: where, under which id, and what it is. -/
structure NoteEnd where
  time : Int
  lane : Nat
  id : NoteId
  kind : NoteKind
deriving DecidableEq

namespace Placement

/-- The milliseconds of the notes of a placement. -/
def times : Placement → List Int
  | skipped => []
  | normal _ time => [time]
  | long _ head tail => [head, tail]

/-- The notes of a placement, stored from the id `next` on. -/
def ends (rule : LongNoteRule) (next : Nat) : Placement → List NoteEnd
  | skipped => []
  | normal lane time => [⟨time, lane, ⟨next⟩, .normal⟩]
  | long lane head tail =>
    [⟨head, lane, ⟨next⟩, .longHead ⟨next + 1⟩ rule⟩, ⟨tail, lane, ⟨next + 1⟩, .longTail ⟨next⟩ rule⟩]

/-- The lane of a placement is one of the first `laneCount`. -/
def Fits (laneCount : Nat) : Placement → Prop
  | skipped => True
  | normal lane _ => lane < laneCount
  | long lane _ _ => lane < laneCount

theorem map_time_ends (rule : LongNoteRule) (next : Nat) (placement : Placement) :
    (placement.ends rule next).map NoteEnd.time = placement.times := by
  cases placement <;> rfl

end Placement

namespace Draft

/-! ## Timelines that exist -/

/-- Whether there is a timeline at a millisecond. -/
def Has (draft : Draft) (time : Int) : Prop := (draft.get? time).isSome

theorem get?_eq_some_iff {draft : Draft} {time : Int} {timeline : Timeline} :
    draft.get? time = some timeline ↔ draft.Has time ∧ timeline = draft.timelineAt time := by
  simp only [Has, timelineAt]
  cases draft.get? time with
  | none => simp
  | some other => simp [eq_comm]

theorem mem_toList {draft : Draft} {timeline : Timeline} :
    timeline ∈ draft.toList ↔ ∃ time, draft.Has time ∧ timeline = draft.timelineAt time := by
  simp only [toList, List.mem_map, Prod.exists, ← get?_eq_some_iff]
  refine ⟨?_, ?_⟩
  · intro hmem
    obtain ⟨time, timeline, hmem, rfl⟩ := hmem
    exact ⟨time, Std.TreeMap.mem_toList_iff_getElem?_eq_some.1 hmem⟩
  · intro h
    obtain ⟨time, h⟩ := h
    exact ⟨time, timeline, Std.TreeMap.mem_toList_iff_getElem?_eq_some.2 h, rfl⟩

/-! ## Writing -/

theorem has_write {draft : Draft} {time other : Int} {f : Timeline → Timeline} :
    (draft.write time f).Has other ↔ other = time ∨ draft.Has other := by
  simp only [Has, get?_write]
  split <;> simp_all

theorem timelineAt_write (draft : Draft) (time other : Int) (f : Timeline → Timeline) :
    (draft.write time f).timelineAt other =
      if other = time then f (draft.timelineAt other) else draft.timelineAt other := by
  rw [timelineAt, get?_write]
  split
  next h => rw [h]; rfl
  next => rfl

/-- A timeline with the tempo and the scroll speed of the timing. -/
def retimed (draft : Draft) (time : Int) (timeline : Timeline) : Timeline :=
  { timeline with bpm := draft.timing.bpmAt time, scroll := draft.timing.scrollAt time }

theorem has_refresh {draft : Draft} {time other : Int} {f : Timeline → Timeline} :
    (draft.refresh time f).Has other ↔ other = time ∨ draft.Has other := has_write

theorem timelineAt_refresh (draft : Draft) (time other : Int) (f : Timeline → Timeline) :
    (draft.refresh time f).timelineAt other =
      if other = time then f (draft.retimed other (draft.timelineAt other)) else draft.timelineAt other := by
  rw [refresh, timelineAt_write]
  split
  next h => subst h; rfl
  next => rfl

/-! ## Notes -/

-- The timelines of a draft do not depend on its notes: where an operation also
-- stores notes, its timelines are those of the writing alone.
theorem get?_addSound (draft : Draft) (time other : Int) (sound : Nat) :
    (draft.addSound time sound).get? other =
      (draft.write time (·.addSoundNote draft.notes.nextId)).get? other := rfl

theorem get?_placeStored (draft : Draft) (time other : Int) (lane : Nat) (id : NoteId) :
    (draft.placeStored time lane id).get? other = (draft.refresh time (·.setNote lane id)).get? other := rfl

theorem has_addSound {draft : Draft} {time other : Int} {sound : Nat} :
    (draft.addSound time sound).Has other ↔ other = time ∨ draft.Has other := by
  rw [Has, get?_addSound]
  exact has_write

theorem timelineAt_addSound (draft : Draft) (time other : Int) (sound : Nat) :
    (draft.addSound time sound).timelineAt other =
      if other = time then (draft.timelineAt other).addSoundNote draft.notes.nextId
      else draft.timelineAt other := by
  rw [timelineAt, get?_addSound]
  exact timelineAt_write ..

theorem has_placeStored {draft : Draft} {time other : Int} {lane : Nat} {id : NoteId} :
    (draft.placeStored time lane id).Has other ↔ other = time ∨ draft.Has other := by
  rw [Has, get?_placeStored]
  exact has_write

theorem timelineAt_placeStored (draft : Draft) (time other : Int) (lane : Nat) (id : NoteId) :
    (draft.placeStored time lane id).timelineAt other =
      if other = time then (draft.retimed other (draft.timelineAt other)).setNote lane id
      else draft.timelineAt other := by
  rw [timelineAt, get?_placeStored]
  exact timelineAt_refresh ..

/-- What a note put on a lane does to the timeline at a millisecond. -/
def putEnd (draft : Draft) (time : Int) (timeline : Timeline) (noteEnd : NoteEnd) : Timeline :=
  if time = noteEnd.time then (draft.retimed time timeline).setNote noteEnd.lane noteEnd.id else timeline

/-- A note changes nothing of a timeline but its tempo, its scroll speed and its
cells. -/
theorem foldl_putEnd {α : Type} (field : Timeline → α) {draft : Draft} {t : Int}
    (h : ∀ timeline lane id, field ((draft.retimed t timeline).setNote lane id) = field timeline)
    (ends : List NoteEnd) (timeline : Timeline) :
    field (ends.foldl (draft.putEnd t) timeline) = field timeline := by
  induction ends generalizing timeline with
  | nil => rfl
  | cons noteEnd rest ih =>
    rw [List.foldl_cons, ih, putEnd]
    split
    · exact h ..
    · rfl

theorem get?_place_normal {draft : Draft} {rule : LongNoteRule} {lane : Nat} {time : Int}
    (other : Int) (h : lane < draft.laneCount) :
    (draft.place rule (.normal lane time)).get? other =
      (draft.refresh time (·.setNote lane draft.notes.nextId)).get? other := by
  simp only [place, placeNote?, h, if_true, Option.getD_some, get?]

theorem place_long {draft : Draft} {rule : LongNoteRule} {lane : Nat} {head tail : Int}
    (h : lane < draft.laneCount) :
    draft.place rule (.long lane head tail) =
      (({ draft with notes := draft.notes.pushLong none rule }).placeStored head lane draft.notes.nextPair.1).placeStored
        tail lane draft.notes.nextPair.2 := by
  simp only [place, placeLong?, h, if_true, Option.getD_some]

theorem has_place {draft : Draft} {rule : LongNoteRule} {placement : Placement} {time : Int}
    (h : placement.Fits draft.laneCount) :
    (draft.place rule placement).Has time ↔ time ∈ placement.times ∨ draft.Has time := by
  cases placement with
  | skipped => simp [place, Placement.times]
  | normal lane start =>
    rw [Has, get?_place_normal time h, Placement.times, List.mem_singleton]
    exact has_write
  | long lane head tail =>
    rw [place_long h, has_placeStored, has_placeStored]
    simp only [Placement.times, List.mem_cons, List.not_mem_nil, or_false]
    refine ⟨?_, ?_⟩
    · intro h
      rcases h with h | h | h
      · exact .inl (.inr h)
      · exact .inl (.inl h)
      · exact .inr h
    · intro h
      rcases h with (h | h) | h
      · exact .inr (.inl h)
      · exact .inl h
      · exact .inr (.inr h)

@[simp] theorem timing_place (draft : Draft) (rule : LongNoteRule) (placement : Placement) :
    (draft.place rule placement).timing = draft.timing := by
  cases placement with
  | skipped => rfl
  | normal lane time =>
    simp only [place, placeNote?]
    split <;> rfl
  | long lane head tail =>
    simp only [place, placeLong?]
    split <;> rfl

@[simp] theorem laneCount_place (draft : Draft) (rule : LongNoteRule) (placement : Placement) :
    (draft.place rule placement).laneCount = draft.laneCount := by
  cases placement with
  | skipped => rfl
  | normal lane time =>
    simp only [place, placeNote?]
    split <;> rfl
  | long lane head tail =>
    simp only [place, placeLong?]
    split <;> rfl

theorem seed_place (draft : Draft) (rule : LongNoteRule) (placement : Placement) (time : Int) :
    (draft.place rule placement).seed time = draft.seed time := by
  rw [seed, timing_place, laneCount_place, seed]

theorem timelineAt_place {draft : Draft} {rule : LongNoteRule} {placement : Placement} (time : Int)
    (h : placement.Fits draft.laneCount) :
    (draft.place rule placement).timelineAt time =
      (placement.ends rule draft.notes.size).foldl (draft.putEnd time) (draft.timelineAt time) := by
  cases placement with
  | skipped => rfl
  | normal lane start =>
    rw [timelineAt, seed_place, get?_place_normal time h]
    exact timelineAt_refresh ..
  | long lane head tail =>
    rw [place_long h, timelineAt_placeStored, timelineAt_placeStored]
    rfl

end Draft

end ManiaChart
