/-
What drawing stores: the notes, in the order of their ids.

Storing only appends, and a note put on a lane is stored as standing where the
timeline stands that holds it. An object that is hit once stores one note, a
long one its head and its tail, which name each other, so that a run of
placements leaves the notes it found followed by its own
(`Stroke.all_drawAll_notes`). No placement moves a timeline, which is why the
notes of a run can all be told by the timelines it starts from.
-/
import ManiaChart.Proofs.Conversion.Drawing

namespace ManiaChart

/-! ## Stores -/

namespace NoteStore

/-- The notes, in the order of their ids. -/
def all (store : NoteStore) : List Note := store.notes.toList

/-- The kinds of the notes, in the order of their ids. -/
def kinds (store : NoteStore) : List NoteKind := store.notes.toList.map Note.kind

@[simp] theorem length_all (store : NoteStore) : store.all.length = store.size := by
  simp [all, size]

theorem getElem?_all (store : NoteStore) (index : Nat) : store.all[index]? = store.get? ⟨index⟩ := by
  simp [all, get?]

theorem getElem?_kinds (store : NoteStore) (index : Nat) :
    store.kinds[index]? = (store.get? ⟨index⟩).map Note.kind := by
  simp [kinds, get?]

@[simp] theorem all_push (store : NoteStore) (note : Note) :
    (store.push note).all = store.all ++ [note] := by
  simp [all, push]

theorem all_pushLong (store : NoteStore) (sound : Option Nat) (rule : LongNoteRule) :
    (store.pushLong sound rule).all =
      store.all ++ [{ kind := .longHead ⟨store.size + 1⟩ rule, sound },
        { kind := .longTail ⟨store.size⟩ rule, sound }] := by
  simp [pushLong, nextPair]

theorem all_place {store : NoteStore} {before after : List Note} {note : Note}
    (h : store.all = before ++ note :: after) {id : NoteId} (hid : id.index = before.length)
    (measure : Binary64) (microTime : Int) :
    (store.place id measure microTime).all = before ++ note.place measure microTime :: after := by
  have hmodify : ∀ (front : List Note) (f : Note → Note),
      (front ++ note :: after).modify front.length f = front ++ f note :: after := by
    intro front f
    induction front with
    | nil => simp
    | cons first rest ih => simp [ih]
  unfold all at h
  simp only [all, place, modify, Array.toList_modify, h, hid, hmodify]

end NoteStore

/-! ## Drafts -/

/-- The note of an end as it is stored: where a timeline stands. -/
def NoteEnd.noteOn (noteEnd : NoteEnd) (timeline : Timeline) : Note where
  kind := noteEnd.kind
  sound := none
  measure := timeline.measure
  microTime := timeline.microTime

namespace Placement

@[simp] theorem length_ends (rule : LongNoteRule) (next : Nat) (placement : Placement) :
    (placement.ends rule next).length = placement.times.length := by
  cases placement <;> rfl

end Placement

namespace Draft

theorem noteOn_setNote (draft : Draft) (noteEnd : NoteEnd) (t : Int) (timeline : Timeline)
    (lane : Nat) (id : NoteId) :
    noteEnd.noteOn ((draft.retimed t timeline).setNote lane id) = noteEnd.noteOn timeline := by
  simp only [NoteEnd.noteOn, retimed, Timeline.setNote]

theorem noteOn_place {draft : Draft} {rule : LongNoteRule} {placement : Placement}
    (h : placement.Fits draft.laneCount) (noteEnd : NoteEnd) (t : Int) :
    noteEnd.noteOn ((draft.place rule placement).timelineAt t) = noteEnd.noteOn (draft.timelineAt t) := by
  rw [timelineAt_place t h]
  exact foldl_putEnd noteEnd.noteOn (draft.noteOn_setNote noteEnd t) ..

theorem noteOn_placeStored (draft : Draft) (time : Int) (lane : Nat) (id : NoteId)
    (noteEnd : NoteEnd) (t : Int) :
    noteEnd.noteOn ((draft.placeStored time lane id).timelineAt t) = noteEnd.noteOn (draft.timelineAt t) := by
  rw [timelineAt_placeStored]
  split
  · exact draft.noteOn_setNote ..
  · rfl

/-- A stored note that is put on a lane stands where its timeline does. -/
theorem all_placeStored {draft : Draft} {before after : List Note} (noteEnd : NoteEnd)
    (h : draft.notes.all = before ++ { kind := noteEnd.kind, sound := none } :: after)
    (hid : noteEnd.id.index = before.length) :
    (draft.placeStored noteEnd.time noteEnd.lane noteEnd.id).notes.all =
      before ++ noteEnd.noteOn (draft.timelineAt noteEnd.time) :: after :=
  NoteStore.all_place h hid ..

/-- A placement stores its notes where the timelines that hold them stand. -/
theorem all_place {draft : Draft} {rule : LongNoteRule} {placement : Placement}
    (h : placement.Fits draft.laneCount) :
    (draft.place rule placement).notes.all =
      draft.notes.all ++ (placement.ends rule draft.notes.size).map fun noteEnd =>
        noteEnd.noteOn (draft.timelineAt noteEnd.time) := by
  cases placement with
  | skipped => simp [place, Placement.ends]
  | normal lane time =>
    have hlane : lane < draft.laneCount := h
    simp only [place, placeNote?, hlane, if_true, Option.getD_some, NoteStore.all_push]
    rfl
  | long lane head tail =>
    let headEnd : NoteEnd := ⟨head, lane, ⟨draft.notes.size⟩, .longHead ⟨draft.notes.size + 1⟩ rule⟩
    let tailEnd : NoteEnd := ⟨tail, lane, ⟨draft.notes.size + 1⟩, .longTail ⟨draft.notes.size⟩ rule⟩
    let stored : Draft := { draft with notes := draft.notes.pushLong none rule }
    have hstored : stored.notes.all = draft.notes.all ++ { kind := headEnd.kind, sound := none } ::
        [{ kind := tailEnd.kind, sound := none }] := draft.notes.all_pushLong none rule
    -- The head is placed first, then the tail behind it.
    have hhead := all_placeStored headEnd hstored draft.notes.length_all.symm
    rw [List.append_cons] at hhead
    have htail := all_placeStored tailEnd hhead (by simp [tailEnd])
    rw [noteOn_placeStored, List.append_assoc] at htail
    rw [place_long h]
    exact htail

end Draft

/-! ## Runs of placements -/

namespace Placement

/-- The notes of placements, stored one after another from the id `next` on. -/
def endsFrom (rule : LongNoteRule) (next : Nat) : List Placement → List NoteEnd
  | [] => []
  | placement :: rest => placement.ends rule next ++ endsFrom rule (next + placement.times.length) rest

theorem map_index_ends (rule : LongNoteRule) (next : Nat) (placement : Placement) :
    (placement.ends rule next).map (·.id.index) = List.range' next placement.times.length := by
  cases placement <;> rfl

theorem map_index_endsFrom (rule : LongNoteRule) (next : Nat) (placements : List Placement) :
    (endsFrom rule next placements).map (·.id.index) =
      List.range' next (endsFrom rule next placements).length := by
  induction placements generalizing next with
  | nil => rfl
  | cons placement rest ih =>
    rw [endsFrom, List.map_append, map_index_ends, ih, List.range'_append_1, List.length_append, length_ends]

theorem le_index_of_mem_endsFrom {rule : LongNoteRule} {next : Nat} {placements : List Placement}
    {noteEnd : NoteEnd} (h : noteEnd ∈ endsFrom rule next placements) :
    next ≤ noteEnd.id.index := by
  have hmem : noteEnd.id.index ∈ (endsFrom rule next placements).map (·.id.index) := List.mem_map_of_mem h
  rw [map_index_endsFrom, List.mem_range'_1] at hmem
  exact hmem.1

end Placement

/-- The index of an item among items that are numbered in order. -/
theorem index_getElem {α : Type} {items : List α} {index : α → Nat} {next : Nat}
    (h : items.map index = List.range' next items.length) {j : Nat} (hj : j < items.length) :
    index items[j] = next + j := by
  have hmap := congrArg (·[j]?) h
  simpa [hj] using hmap

theorem Draft.size_place {draft : Draft} {rule : LongNoteRule} {placement : Placement}
    (h : placement.Fits draft.laneCount) :
    (draft.place rule placement).notes.size = draft.notes.size + placement.times.length := by
  rw [← NoteStore.length_all, all_place h, List.length_append, NoteStore.length_all, List.length_map,
    Placement.length_ends]

theorem Stroke.noteOn_drawAll_notes {rule : LongNoteRule} {draft : Draft}
    {placements : List Placement} (h : ∀ placement ∈ placements, placement.Fits draft.laneCount)
    (noteEnd : NoteEnd) (t : Int) :
    noteEnd.noteOn ((drawAll rule draft (placements.map Stroke.notes)).timelineAt t) =
      noteEnd.noteOn (draft.timelineAt t) := by
  refine Stroke.kept_drawAll noteEnd.noteOn (fun other stroke hmem timeline => ?_) fun stroke hmem => ?_
  · obtain ⟨placement, -, rfl⟩ := List.mem_map.1 hmem
    exact Draft.foldl_putEnd noteEnd.noteOn (other.noteOn_setNote noteEnd t) ..
  · obtain ⟨placement, hplacement, rfl⟩ := List.mem_map.1 hmem
    exact h placement hplacement

/-- Placements store their notes in order, each where the timeline that holds it
stands. -/
theorem Stroke.all_drawAll_notes {rule : LongNoteRule} {draft : Draft}
    {placements : List Placement} (h : ∀ placement ∈ placements, placement.Fits draft.laneCount) :
    (drawAll rule draft (placements.map Stroke.notes)).notes.all =
      draft.notes.all ++ (Placement.endsFrom rule draft.notes.size placements).map fun noteEnd =>
        noteEnd.noteOn (draft.timelineAt noteEnd.time) := by
  induction placements generalizing draft with
  | nil => exact (List.append_nil _).symm
  | cons placement rest ih =>
    have hplacement : placement.Fits draft.laneCount := h placement (by simp)
    have hrest : ∀ other ∈ rest, other.Fits (draft.place rule placement).laneCount := by
      intro other hmem
      rw [Draft.laneCount_place]
      exact h other (by simp [hmem])
    show (Stroke.drawAll rule (draft.place rule placement) (rest.map Stroke.notes)).notes.all = _
    rw [ih hrest, Draft.all_place hplacement, Draft.size_place hplacement, Placement.endsFrom, List.map_append,
      List.append_assoc]
    simp only [Draft.noteOn_place hplacement]

theorem Stroke.get?_of_mem_endsFrom {rule : LongNoteRule} {draft : Draft}
    {placements : List Placement} (h : ∀ placement ∈ placements, placement.Fits draft.laneCount)
    {noteEnd : NoteEnd} (hmem : noteEnd ∈ Placement.endsFrom rule draft.notes.size placements) :
    (drawAll rule draft (placements.map Stroke.notes)).notes.get? noteEnd.id =
      some (noteEnd.noteOn (draft.timelineAt noteEnd.time)) := by
  obtain ⟨j, hj, rfl⟩ := List.mem_iff_getElem.1 hmem
  have hindex := index_getElem (Placement.map_index_endsFrom rule draft.notes.size placements) hj
  rw [← NoteStore.getElem?_all _ (Placement.endsFrom rule draft.notes.size placements)[j].id.index, hindex,
    all_drawAll_notes h, List.getElem?_append_right (by simp), NoteStore.length_all, Nat.add_sub_cancel_left]
  simp [hj]

end ManiaChart
