/-
What any run of edits leaves of a draft. Timelines and notes are kept apart: an
edit that puts a note somewhere stores it in one place and its id in another,
and a note that is replaced on its lane stays stored. `Draft.Coherent` says how
the two fit all the same, every edit keeps it (`Coherent.edit`), and so does
every run.

An id comes into at most one slot because it is put into one only while no slot
holds it (`Draft.Free`), and because its note stands at the millisecond of the
timeline that holds it, so that two timelines share no id.
-/
import Mathlib.Data.List.Nodup
import Mathlib.Data.List.Perm.Basic
import ManiaChart.Proofs.Chart.Pairing
import ManiaChart.Proofs.Chart.Writing

namespace ManiaChart

/-! ## Edits -/

/-- What may be written to a timeline as such. -/
structure Timeline.Values where
  measure : Binary64
  bpm : Binary64
  scroll : Binary64
  hasMeasureLine : Bool
  bga : Option Nat

def Timeline.overwrite (timeline : Timeline) (values : Timeline.Values) : Timeline :=
  { timeline with
    measure := values.measure
    bpm := values.bpm
    scroll := values.scroll
    hasMeasureLine := values.hasMeasureLine
    bga := values.bga }

/-- What can be done to a draft. Values may be chosen in view of the timeline
they are written to. -/
inductive Draft.Edit
  | write (time : Int) (values : Timeline → Timeline.Values)
  /-- Tempo and scroll speed looked up again before the values are written. -/
  | refresh (time : Int) (values : Timeline → Timeline.Values)
  | sound (time : Int) (index : Nat)
  | note (time : Int) (lane : Nat)
  | long (head tail : Int) (lane : Nat) (rule : LongNoteRule)

namespace Draft

/-- Notes on a lane that does not exist are not placed. -/
def edit (draft : Draft) : Edit → Draft
  | .write time values => draft.write time fun timeline => timeline.overwrite (values timeline)
  | .refresh time values => draft.refresh time fun timeline => timeline.overwrite (values timeline)
  | .sound time index => draft.addSound time index
  | .note time lane => (draft.placeNote? time lane).getD draft
  | .long head tail lane rule => (draft.placeLong? head tail lane rule).getD draft

def editAll (draft : Draft) (edits : List Edit) : Draft := edits.foldl edit draft

/-- The ids that a run gives to background notes. -/
def soundIds (draft : Draft) : List Edit → List NoteId
  | [] => []
  | .sound time index :: rest => draft.notes.nextId :: (draft.addSound time index).soundIds rest
  | edit :: rest => (draft.edit edit).soundIds rest

end Draft

/-! ## The slots of a timeline -/

namespace Timeline

/-- The ids in the slots of a timeline: in its background, then on its lanes. -/
def ids (timeline : Timeline) : List NoteId :=
  timeline.soundNotes.toList ++ timeline.cells.toList.filterMap id

/-- Whether, of two states of a timeline, the second has put nothing but `ids`
into slots. -/
structure Takes (ids : List NoteId) (before after : Timeline) : Prop where
  microTime : after.microTime = before.microTime
  laneCount : after.laneCount = before.laneCount
  slots : after.ids.Subperm (ids ++ before.ids)

variable {timeline : Timeline} {ids : List NoteId}

theorem takes_overwrite (timeline : Timeline) (values : Values) :
    Takes [] timeline (timeline.overwrite values) :=
  ⟨rfl, rfl, .refl _⟩

theorem ids_retimed (draft : Draft) (t : Int) (timeline : Timeline) :
    (draft.retimed t timeline).ids = timeline.ids := by
  simp only [Timeline.ids, Draft.retimed]

theorem Takes.of_retimed {draft : Draft} {t : Int} {after : Timeline}
    (h : Takes ids (draft.retimed t timeline) after) : Takes ids timeline after where
  microTime := h.microTime.trans (by simp only [Draft.retimed])
  laneCount := h.laneCount.trans (by simp only [Timeline.laneCount, Draft.retimed])
  slots := by
    have hslots := h.slots
    rwa [ids_retimed] at hslots

theorem takes_addSoundNote (timeline : Timeline) (id : NoteId) :
    Takes [id] timeline (timeline.addSoundNote id) := by
  refine ⟨rfl, rfl, List.Perm.subperm ?_⟩
  simp only [Timeline.ids, addSoundNote, Array.toList_push, List.append_assoc, List.singleton_append]
  exact List.perm_middle

/-- A note put on a lane takes the slot of the one that was there. -/
theorem subperm_set (cells : List (Option NoteId)) (lane : Nat) (note : NoteId) :
    ((cells.set lane (some note)).filterMap id).Subperm (note :: cells.filterMap id) := by
  by_cases hlane : lane < cells.length
  · have hset := (List.set_perm_cons_eraseIdx hlane (some note)).filterMap id
    rw [List.filterMap_cons_some (f := id) rfl] at hset
    have hrest : ((cells.eraseIdx lane).filterMap id).Sublist (cells.filterMap id) :=
      (List.eraseIdx_sublist cells lane).filterMap id
    exact hset.subperm.trans (hrest.cons_cons note).subperm
  · rw [List.set_eq_of_length_le (Nat.le_of_not_lt hlane)]
    exact List.Subperm.cons_self

theorem takes_setNote (timeline : Timeline) (lane : Nat) (id : NoteId) :
    Takes [id] timeline (timeline.setNote lane id) := by
  refine ⟨rfl, ?_, ?_⟩
  · simp only [laneCount, setNote, Array.size_setIfInBounds]
  · simp only [Timeline.ids, setNote, Array.toList_setIfInBounds, List.singleton_append]
    have hcells := (List.subperm_append_left timeline.soundNotes.toList).2
      (subperm_set timeline.cells.toList lane id)
    exact hcells.trans List.perm_middle.subperm

end Timeline

/-! ## Coherence -/

namespace Draft

variable {draft after : Draft} {id : NoteId}

/-- Whether no slot holds an id. -/
def Free (draft : Draft) (id : NoteId) : Prop := ∀ t, id ∉ (draft.timelineAt t).ids

/-- How the timelines and the notes of a draft fit. -/
structure Coherent (draft : Draft) : Prop where
  microTime : ∀ t, (draft.timelineAt t).microTime = t * 1000
  laneCount : ∀ t, (draft.timelineAt t).laneCount = draft.laneCount
  nodup : ∀ t, (draft.timelineAt t).ids.Nodup
  /-- An id in a slot is that of a note, which stands where the timeline does. -/
  stored : ∀ {t id}, id ∈ (draft.timelineAt t).ids →
    ∃ note, draft.notes.get? id = some note ∧ note.microTime = t * 1000
  paired : draft.notes.Paired

theorem ids_seed (draft : Draft) (t : Int) : (draft.seed t).ids = [] := by
  simp [Timeline.ids, seed]

theorem coherent_empty (timing : Timing) (laneCount : Nat) : ({ timing, laneCount } : Draft).Coherent := by
  have hids : ∀ t, (({ timing, laneCount } : Draft).timelineAt t).ids = [] := ids_seed _
  refine ⟨fun t => rfl, fun t => Array.size_replicate, fun t => ?_, fun hmem => ?_, .empty⟩
  · rw [hids]
    exact List.nodup_nil
  · rw [hids] at hmem
    cases hmem

theorem Coherent.free (h : draft.Coherent) (hid : draft.notes.size ≤ id.index) : draft.Free id := by
  intro t hmem
  obtain ⟨note, hnote, -⟩ := h.stored hmem
  rw [NoteStore.get?_eq_none_of_size_le hid] at hnote
  cases hnote

/-- **What an edit may do.** It may put free ids of notes that stand at a
millisecond into slots there, and must keep the notes of all others. -/
theorem Coherent.step (h : draft.Coherent) (time : Int) (ids : List NoteId)
    (hlanes : after.laneCount = draft.laneCount)
    (hother : ∀ t, t ≠ time → after.timelineAt t = draft.timelineAt t)
    (htakes : Timeline.Takes ids (draft.timelineAt time) (after.timelineAt time))
    (hfree : ∀ id ∈ ids, draft.Free id) (hnodup : ids.Nodup)
    (hkept : ∀ id, id ∉ ids → ∀ note, draft.notes.get? id = some note → after.notes.get? id = some note)
    (hnew : ∀ id ∈ ids, ∃ note, after.notes.get? id = some note ∧ note.microTime = time * 1000)
    (hpaired : after.notes.Paired) : after.Coherent := by
  have hold : ∀ {t id}, id ∈ (draft.timelineAt t).ids →
      ∃ note, after.notes.get? id = some note ∧ note.microTime = t * 1000 := by
    intro t id hmem
    obtain ⟨note, hnote, htime⟩ := h.stored hmem
    exact ⟨note, hkept id (fun hid => hfree id hid t hmem) note hnote, htime⟩
  refine ⟨?microTime, ?laneCount, ?nodup, ?stored, hpaired⟩
  case microTime =>
    intro t
    by_cases ht : t = time
    · subst ht
      exact htakes.microTime.trans (h.microTime t)
    · rw [hother t ht]
      exact h.microTime t
  case laneCount =>
    intro t
    rw [hlanes]
    by_cases ht : t = time
    · subst ht
      exact htakes.laneCount.trans (h.laneCount t)
    · rw [hother t ht]
      exact h.laneCount t
  case nodup =>
    intro t
    by_cases ht : t = time
    · subst ht
      obtain ⟨slots, hperm, hsub⟩ := htakes.slots
      refine hperm.nodup_iff.1 (List.Nodup.sublist hsub ?_)
      exact hnodup.append (h.nodup t) fun id hid hmem => hfree id hid t hmem
    · rw [hother t ht]
      exact h.nodup t
  case stored =>
    intro t id hmem
    by_cases ht : t = time
    · subst ht
      rcases List.mem_append.1 (htakes.slots.subset hmem) with hid | hid
      · exact hnew id hid
      · exact hold hid
    · rw [hother t ht] at hmem
      exact hold hmem

theorem Coherent.write (h : draft.Coherent) (time : Int) {f : Timeline → Timeline}
    (hf : ∀ timeline, Timeline.Takes [] timeline (f timeline)) : (draft.write time f).Coherent := by
  refine h.step time [] rfl (fun t ht => ?_) ?_ ?_ List.nodup_nil ?_ ?_ h.paired
  · rw [timelineAt_write, if_neg ht]
  · rw [timelineAt_write, if_pos rfl]
    exact hf _
  · simp
  · exact fun _ _ _ hnote => hnote
  · simp

theorem Coherent.refresh (h : draft.Coherent) (time : Int) {f : Timeline → Timeline}
    (hf : ∀ timeline, Timeline.Takes [] timeline (f timeline)) : (draft.refresh time f).Coherent :=
  h.write time fun timeline => (hf (draft.retimed time timeline)).of_retimed

/-- A note stored on the timeline at a millisecond stands there. -/
theorem Coherent.microTime_placed (h : draft.Coherent) (time : Int) (note : Note) :
    (draft.placed time note).microTime = time * 1000 :=
  h.microTime time

theorem Coherent.push (h : draft.Coherent) (time : Int) (note : Note) (hnormal : note.kind = .normal)
    (hnotes : after.notes = draft.notes.push (draft.placed time note))
    (hlanes : after.laneCount = draft.laneCount)
    (hother : ∀ t, t ≠ time → after.timelineAt t = draft.timelineAt t)
    (htakes : Timeline.Takes [draft.notes.nextId] (draft.timelineAt time) (after.timelineAt time)) :
    after.Coherent := by
  refine h.step time [draft.notes.nextId] hlanes hother htakes ?_ (List.nodup_singleton _) ?_ ?_ ?_
  · intro id hid
    obtain rfl := List.mem_singleton.1 hid
    exact h.free (Nat.le_refl _)
  · intro id hid other hother
    rw [hnotes, NoteStore.get?_push_of_ne fun heq => hid (List.mem_singleton.2 heq), hother]
  · intro id hid
    obtain rfl := List.mem_singleton.1 hid
    exact ⟨_, by rw [hnotes, NoteStore.get?_push, if_pos rfl], h.microTime_placed time note⟩
  · rw [hnotes]
    exact h.paired.push hnormal

theorem Coherent.addSound (h : draft.Coherent) (time : Int) (sound : Nat) :
    (draft.addSound time sound).Coherent := by
  refine h.push time (.normal (some sound)) rfl rfl rfl (fun t ht => ?_) ?_
  · rw [timelineAt_addSound, if_neg ht]
  · rw [timelineAt_addSound, if_pos rfl]
    exact Timeline.takes_addSoundNote ..

theorem Coherent.placeNote? (h : draft.Coherent) {time : Int} {lane : Nat}
    (hplace : draft.placeNote? time lane = some after) : after.Coherent := by
  have htimeline : ∀ t, after.timelineAt t =
      (draft.refresh time (·.setNote lane draft.notes.nextId)).timelineAt t := by
    unfold Draft.placeNote? at hplace
    split at hplace <;> cases hplace
    exact fun t => rfl
  unfold Draft.placeNote? at hplace
  split at hplace <;> cases hplace
  refine h.push time (.normal none) rfl rfl rfl (fun t ht => ?_) ?_
  · rw [htimeline, timelineAt_refresh, if_neg ht]
  · rw [htimeline, timelineAt_refresh, if_pos rfl]
    exact (Timeline.takes_setNote ..).of_retimed

/-- A stored note is moved to where its id is put into a slot. -/
theorem Coherent.placeStored (h : draft.Coherent) (time : Int) (lane : Nat) (hfree : draft.Free id)
    (hid : id.index < draft.notes.size) : (draft.placeStored time lane id).Coherent := by
  obtain ⟨note, hnote⟩ : ∃ note, draft.notes.get? id = some note := ⟨_, Array.getElem?_eq_getElem hid⟩
  refine h.step time [id] rfl (fun t ht => ?_) ?_ ?_ (List.nodup_singleton _) ?_ ?_
    (h.paired.place ..)
  · rw [timelineAt_placeStored, if_neg ht]
  · rw [timelineAt_placeStored, if_pos rfl]
    exact (Timeline.takes_setNote ..).of_retimed
  · intro other hother
    obtain rfl := List.mem_singleton.1 hother
    exact hfree
  · intro other hne stored hstored
    have hne : other ≠ id := fun heq => hne (List.mem_singleton.2 heq)
    show (draft.notes.place id _ _).get? other = _
    rw [NoteStore.get?_place, if_neg hne, hstored]
  · intro other hother
    obtain rfl := List.mem_singleton.1 hother
    refine ⟨draft.placed time note, ?_, h.microTime_placed time note⟩
    show (draft.notes.place other _ _).get? other = _
    rw [NoteStore.get?_place, if_pos rfl, hnote]
    rfl

theorem Coherent.pushLong (h : draft.Coherent) (sound : Option Nat) (rule : LongNoteRule) :
    ({ draft with notes := draft.notes.pushLong sound rule } : Draft).Coherent where
  microTime := h.microTime
  laneCount := h.laneCount
  nodup := h.nodup
  stored hmem := by
    obtain ⟨note, hnote, htime⟩ := h.stored hmem
    refine ⟨note, ?_, htime⟩
    show (draft.notes.pushLong sound rule).get? _ = _
    rw [NoteStore.get?_pushLong_of_lt (NoteStore.lt_size_of_get? hnote), hnote]
  paired := h.paired.pushLong sound rule

theorem Free.placeStored (h : draft.Free id) {other : NoteId} (hne : id ≠ other) (time : Int) (lane : Nat) :
    (draft.placeStored time lane other).Free id := by
  intro t hmem
  rw [timelineAt_placeStored] at hmem
  split at hmem
  · have htakes := (Timeline.takes_setNote (draft.retimed t (draft.timelineAt t)) lane other).of_retimed
    rcases List.mem_cons.1 (htakes.slots.subset hmem) with hid | hid
    · exact hne hid
    · exact h t hid
  · exact h t hmem

theorem Coherent.placeLong? (h : draft.Coherent) {head tail : Int} {lane : Nat} {rule : LongNoteRule}
    (hplace : draft.placeLong? head tail lane rule = some after) : after.Coherent := by
  unfold Draft.placeLong? at hplace
  split at hplace <;> cases hplace
  have hstored := h.pushLong none rule
  -- Both ids are free while the notes are stored, and the tail's still is when the head is placed.
  have hhead : ({ draft with notes := draft.notes.pushLong none rule } : Draft).Free draft.notes.nextPair.1 :=
    h.free (Nat.le_refl _)
  have htail : ({ draft with notes := draft.notes.pushLong none rule } : Draft).Free draft.notes.nextPair.2 :=
    h.free (Nat.le_succ _)
  have hsize := draft.notes.size_pushLong none rule
  refine (hstored.placeStored head lane hhead ?_).placeStored tail lane (htail.placeStored ?_ head lane) ?_
  · simp [hsize, NoteStore.nextPair]
  · simp [NoteStore.nextPair]
  · simp [Draft.placeStored, NoteStore.place, hsize, NoteStore.nextPair]

theorem Coherent.edit (h : draft.Coherent) (edit : Edit) : (draft.edit edit).Coherent := by
  cases edit with
  | write time values => exact h.write time fun timeline => timeline.takes_overwrite (values timeline)
  | refresh time values => exact h.refresh time fun timeline => timeline.takes_overwrite (values timeline)
  | sound time index => exact h.addSound time index
  | note time lane =>
    simp only [Draft.edit]
    cases hplace : draft.placeNote? time lane with
    | none => exact h
    | some after => exact h.placeNote? hplace
  | long head tail lane rule =>
    simp only [Draft.edit]
    cases hplace : draft.placeLong? head tail lane rule with
    | none => exact h
    | some after => exact h.placeLong? hplace

theorem Coherent.editAll (h : draft.Coherent) (edits : List Edit) : (draft.editAll edits).Coherent := by
  induction edits generalizing draft with
  | nil => exact h
  | cons edit rest ih => exact ih (h.edit edit)

@[simp] theorem laneCount_edit (draft : Draft) (edit : Edit) : (draft.edit edit).laneCount = draft.laneCount := by
  cases edit with
  | write | refresh | sound => rfl
  | note time lane =>
    simp only [Draft.edit, Draft.placeNote?]
    split <;> rfl
  | long head tail lane rule =>
    simp only [Draft.edit, Draft.placeLong?]
    split <;> rfl

@[simp] theorem laneCount_editAll (draft : Draft) (edits : List Edit) :
    (draft.editAll edits).laneCount = draft.laneCount := by
  induction edits generalizing draft with
  | nil => rfl
  | cons edit rest ih => exact (ih (draft.edit edit)).trans (laneCount_edit draft edit)

/-! ## Background notes -/

theorem mem_soundNotes_refresh {t : Int} (hmem : id ∈ (draft.timelineAt t).soundNotes) (time : Int)
    {f : Timeline → Timeline} (hf : ∀ timeline, (f timeline).soundNotes = timeline.soundNotes) :
    id ∈ ((draft.refresh time f).timelineAt t).soundNotes := by
  rw [timelineAt_refresh]
  split
  · rw [hf]
    simpa only [retimed] using hmem
  · exact hmem

theorem mem_soundNotes_placeStored {t : Int} (hmem : id ∈ (draft.timelineAt t).soundNotes) (time : Int)
    (lane : Nat) (other : NoteId) : id ∈ ((draft.placeStored time lane other).timelineAt t).soundNotes :=
  mem_soundNotes_refresh (f := (·.setNote lane other)) hmem time fun _ => rfl

/-- No edit takes a background note away. -/
theorem mem_soundNotes_edit {t : Int} (hmem : id ∈ (draft.timelineAt t).soundNotes) (edit : Edit) :
    id ∈ ((draft.edit edit).timelineAt t).soundNotes := by
  cases edit with
  | write time values =>
    rw [Draft.edit, timelineAt_write]
    split <;> exact hmem
  | refresh time values => exact mem_soundNotes_refresh hmem time fun _ => rfl
  | sound time index =>
    rw [Draft.edit, timelineAt_addSound]
    split
    · exact Array.mem_push_of_mem _ hmem
    · exact hmem
  | note time lane =>
    simp only [Draft.edit, Draft.placeNote?]
    split
    · show id ∈ ((draft.refresh time (·.setNote lane draft.notes.nextId)).timelineAt t).soundNotes
      exact mem_soundNotes_refresh hmem time fun _ => rfl
    · exact hmem
  | long head tail lane rule =>
    simp only [Draft.edit, Draft.placeLong?]
    split
    · rw [Option.getD_some]
      exact mem_soundNotes_placeStored (mem_soundNotes_placeStored hmem ..) ..
    · exact hmem

theorem mem_soundNotes_editAll {t : Int} (hmem : id ∈ (draft.timelineAt t).soundNotes) (edits : List Edit) :
    id ∈ ((draft.editAll edits).timelineAt t).soundNotes := by
  induction edits generalizing draft with
  | nil => exact hmem
  | cons edit rest ih => exact ih (mem_soundNotes_edit hmem edit)

theorem mem_soundNotes_of_mem_soundIds {edits : List Edit} (h : id ∈ draft.soundIds edits) :
    ∃ t, id ∈ ((draft.editAll edits).timelineAt t).soundNotes := by
  induction edits generalizing draft with
  | nil => cases h
  | cons edit rest ih =>
    cases edit with
    | sound time index =>
      rcases List.mem_cons.1 h with rfl | h
      · have hnew : draft.notes.nextId ∈ ((draft.addSound time index).timelineAt time).soundNotes := by
          rw [timelineAt_addSound, if_pos rfl]
          exact Array.mem_push_self
        exact ⟨time, mem_soundNotes_editAll hnew rest⟩
      · exact ih h
    | write time values | refresh time values | note time lane | long head tail lane rule => exact ih h

/-! ## Drafts taken apart -/

/-- What the timelines and the notes of a draft are to each other, for a draft
with lanes that has been given `sounds` as background notes. -/
structure Consistent (draft : Draft) (lanes : Nat) (sounds : List NoteId) : Prop where
  stands : ∀ time timeline, draft.get? time = some timeline →
    timeline.microTime = 1000 * time ∧ timeline.laneCount = lanes
  listed : ∀ timeline, timeline ∈ draft.toList ↔ ∃ time, draft.get? time = some timeline
  ascending : draft.toList.Pairwise fun a b => a.microTime < b.microTime
  stored : ∀ timeline ∈ draft.toList, ∀ id ∈ timeline.ids,
    ∃ note, draft.notes.get? id = some note ∧ note.microTime = timeline.microTime
  once : ∀ id, (draft.toList.flatMap Timeline.ids).count id ≤ 1
  sounds : ∀ id ∈ sounds, (draft.toList.flatMap Timeline.ids).count id = 1 ∧
    ∃ timeline ∈ draft.toList, id ∈ timeline.soundNotes
  paired : ∀ id note, draft.notes.get? id = some note →
    ((draft.notes.pairOf? id).isSome = true ↔ note.isLong = true)
  involutive : ∀ id other, draft.notes.pairOf? id = some other →
    other ≠ id ∧ draft.notes.pairOf? other = some id
  heads : ∀ id note tail rule, draft.notes.get? id = some note → note.kind = .longHead tail rule →
    tail = ⟨id.index + 1⟩ ∧ ∃ other, draft.notes.get? tail = some other ∧ other.kind = .longTail id rule

theorem mem_toList_iff {timeline : Timeline} :
    timeline ∈ draft.toList ↔ ∃ time, draft.get? time = some timeline := by
  simp only [mem_toList, get?_eq_some_iff]

theorem Coherent.ascending (h : draft.Coherent) : draft.toList.Pairwise fun a b => a.microTime < b.microTime := by
  have htime : ∀ entry ∈ draft.timelines.toList, entry.2.microTime = entry.1 * 1000 := by
    intro entry hmem
    have hget : draft.get? entry.1 = some entry.2 := Std.TreeMap.mem_toList_iff_getElem?_eq_some.1 hmem
    rw [(get?_eq_some_iff.1 hget).2]
    exact h.microTime entry.1
  rw [toList, List.pairwise_map]
  refine draft.timelines.ordered_keys_toList.imp_of_mem fun {a b} ha hb hlt => ?_
  have hlt : a.1 < b.1 := Std.compare_eq_lt.1 hlt
  rw [htime a ha, htime b hb]
  omega

theorem Coherent.stored_of_mem (h : draft.Coherent) {timeline : Timeline} (hmem : timeline ∈ draft.toList)
    (hid : id ∈ timeline.ids) :
    ∃ note, draft.notes.get? id = some note ∧ note.microTime = timeline.microTime := by
  obtain ⟨t, -, rfl⟩ := mem_toList.1 hmem
  rw [h.microTime]
  exact h.stored hid

theorem Coherent.nodup_ids (h : draft.Coherent) : (draft.toList.flatMap Timeline.ids).Nodup := by
  refine List.nodup_flatMap.2 ⟨fun timeline hmem => ?_, ?_⟩
  · obtain ⟨t, -, rfl⟩ := mem_toList.1 hmem
    exact h.nodup t
  · refine h.ascending.imp_of_mem fun {a b} ha hb hlt id hida hidb => ?_
    obtain ⟨note, hnote, htime⟩ := h.stored_of_mem ha hida
    obtain ⟨other, hother, htime'⟩ := h.stored_of_mem hb hidb
    rw [hnote] at hother
    cases hother
    omega

theorem exists_timeline_of_mem_soundNotes {t : Int} (h : id ∈ (draft.timelineAt t).soundNotes) :
    ∃ timeline ∈ draft.toList, id ∈ timeline.soundNotes := by
  refine ⟨draft.timelineAt t, mem_toList.2 ⟨t, ?_, rfl⟩, h⟩
  rw [Has, Option.isSome_iff_ne_none]
  intro hnone
  rw [timelineAt, hnone, Option.getD_none] at h
  simp [seed] at h

/-- **Timelines and notes stay consistent** over every run of edits, whatever
their times and lanes: each id in a slot is that of a stored note at the
timeline's time, no id is in two slots, background notes stay in theirs, and the
ends of long notes lead to each other. -/
theorem consistent_editAll (timing : Timing) (laneCount : Nat) (edits : List Edit) :
    (({ timing, laneCount } : Draft).editAll edits).Consistent laneCount
      (({ timing, laneCount } : Draft).soundIds edits) := by
  have h := (coherent_empty timing laneCount).editAll edits
  refine ⟨?_, fun _ => mem_toList_iff, h.ascending, fun _ hmem _ => h.stored_of_mem hmem,
    fun id => List.nodup_iff_count_le_one.1 h.nodup_ids id, ?_, ?_, ?_, ?_⟩
  · intro time timeline hget
    obtain ⟨-, rfl⟩ := get?_eq_some_iff.1 hget
    refine ⟨?_, ?_⟩
    · rw [h.microTime]
      omega
    · rw [h.laneCount, laneCount_editAll]
  · intro id hid
    obtain ⟨t, hmem⟩ := mem_soundNotes_of_mem_soundIds hid
    obtain ⟨timeline, htimeline, hsound⟩ := exists_timeline_of_mem_soundNotes hmem
    refine ⟨List.count_eq_one_of_mem h.nodup_ids (List.mem_flatMap.2 ⟨timeline, htimeline, ?_⟩),
      timeline, htimeline, hsound⟩
    exact List.mem_append_left _ (Array.mem_toList_iff.2 hsound)
  · exact fun id note => NoteStore.isSome_pairOf?_iff
  · exact fun id other => h.paired.pairOf?_pairOf?
  · intro id note tail rule hnote hkind
    have hhead : ((({ timing, laneCount } : Draft).editAll edits).notes).kind? id = some (.longHead tail rule) := by
      rw [NoteStore.kind?, hnote, Option.map_some, hkind]
    obtain ⟨hnext, htail⟩ := h.paired.tail_of_head hhead
    exact ⟨hnext, Option.map_eq_some_iff.1 htail⟩

end Draft

end ManiaChart
