/-
Placing notes on a lane is atomic and local. Where the lane does not exist the
draft stays as it was. On any other lane the notes are stored after all others,
the timelines at their milliseconds give them the cell of the lane and look up
tempo and scroll speed again, and nothing else changes (`Draft.Gains`): no note
stored before, no other cell, no timeline at another millisecond.

A draft is reached by edits (`Draft.Reachable`), so its timelines have all its
lanes and no note misses its cell.
-/
import ManiaChart.Proofs.Chart.Coherence
import ManiaChart.Proofs.Conversion.Cells

namespace ManiaChart

/-! ## What a placed note changes -/

/-- How a timeline changes when the note of an id is put on a lane of it. -/
structure Timeline.Gains (before : Timeline) (timing : Timing) (time : Int) (lane : Nat) (id : NoteId)
    (after : Timeline) : Prop where
  bpm : after.bpm = timing.bpmAt time
  scroll : after.scroll = timing.scrollAt time
  cell : after.note? lane = some id
  otherCells : ∀ other, other ≠ lane → after.note? other = before.note? other
  laneCount : after.laneCount = before.laneCount
  microTime : after.microTime = before.microTime
  measure : after.measure = before.measure
  hasMeasureLine : after.hasMeasureLine = before.hasMeasureLine
  bga : after.bga = before.bga
  soundNotes : after.soundNotes = before.soundNotes

/-- What of a timeline is neither its speeds nor the notes on its lanes. -/
def Timeline.unplaced (timeline : Timeline) : Int × Binary64 × Bool × Option Nat × Array NoteId :=
  (timeline.microTime, timeline.measure, timeline.hasMeasureLine, timeline.bga, timeline.soundNotes)

/-- How a draft changes when notes are put on a lane of it. -/
structure Draft.Gains (before : Draft) (lane : Nat) (ends : List NoteEnd) (after : Draft) : Prop where
  timing : after.timing = before.timing
  laneCount : after.laneCount = before.laneCount
  size : after.notes.size = before.notes.size + ends.length
  kept : ∀ id, id.index < before.notes.size → after.notes.get? id = before.notes.get? id
  /-- The notes stand where the timelines that take them do. -/
  stored : ∀ noteEnd ∈ ends,
    after.notes.get? noteEnd.id = some (noteEnd.noteOn (before.timelineAt noteEnd.time))
  elsewhere : ∀ t, t ∉ ends.map NoteEnd.time → after.get? t = before.get? t
  /-- Where two of the notes share a cell, the later one holds it. -/
  there : ∀ noteEnd ∈ ends, ∃ last timeline, lastEnd? ends (noteEnd.time, lane) = some last ∧
    after.get? noteEnd.time = some timeline ∧
    (before.timelineAt noteEnd.time).Gains before.timing noteEnd.time lane last.id timeline

namespace Draft

variable {draft after : Draft} {placement : Placement} {rule : LongNoteRule} {lane : Nat} {t : Int}

/-! ## On the timelines -/

theorem get?_congr (hhas : after.Has t ↔ draft.Has t) (htimeline : after.timelineAt t = draft.timelineAt t) :
    after.get? t = draft.get? t := by
  cases hget : draft.get? t with
  | none =>
    have hnot : ¬after.Has t := fun h => by
      have hold := hhas.1 h
      rw [Has, hget] at hold
      cases hold
    simpa [Has] using hnot
  | some timeline =>
    obtain ⟨hold, rfl⟩ := get?_eq_some_iff.1 hget
    exact get?_eq_some_iff.2 ⟨hhas.2 hold, htimeline.symm⟩

/-- Notes at other milliseconds leave a timeline alone. -/
theorem foldl_putEnd_of_not_mem {ends : List NoteEnd} (ht : t ∉ ends.map NoteEnd.time) (timeline : Timeline) :
    ends.foldl (draft.putEnd t) timeline = timeline := by
  induction ends generalizing timeline with
  | nil => rfl
  | cons noteEnd rest ih =>
    rw [List.map_cons, List.mem_cons, not_or] at ht
    rw [List.foldl_cons, putEnd, if_neg ht.1, ih ht.2]

/-- Notes on one lane change a timeline at their millisecond by the last of
them. -/
theorem gains_foldl_putEnd {ends : List NoteEnd} {last : NoteEnd} {timeline : Timeline}
    (hlanes : ∀ noteEnd ∈ ends, noteEnd.lane = lane) (hlane : lane < timeline.laneCount)
    (hlast : lastEnd? ends (t, lane) = some last) :
    timeline.Gains draft.timing t lane last.id (ends.foldl (draft.putEnd t) timeline) := by
  obtain ⟨hmem, hcell⟩ := mem_of_lastEnd? hlast
  have ht : t ∈ ends.map NoteEnd.time := List.mem_map.2 ⟨last, hmem, congrArg Prod.fst hcell⟩
  have hspeed := draft.speed_foldl_putEnd t ends timeline
  rw [if_pos ht, Prod.mk.injEq] at hspeed
  have hfits : ∀ noteEnd ∈ ends, noteEnd.lane < timeline.laneCount := fun noteEnd hnoteEnd =>
    hlanes noteEnd hnoteEnd ▸ hlane
  have hkept : (ends.foldl (draft.putEnd t) timeline).unplaced = timeline.unplaced :=
    foldl_putEnd Timeline.unplaced (fun _ _ _ => by simp only [Timeline.unplaced, retimed, Timeline.setNote]) ends
      timeline
  simp only [Timeline.unplaced, Prod.mk.injEq] at hkept
  obtain ⟨hmicroTime, hmeasure, hline, hbga, hsounds⟩ := hkept
  refine ⟨hspeed.1, hspeed.2, ?cell, ?otherCells, draft.laneCount_foldl_putEnd t ends timeline,
    hmicroTime, hmeasure, hline, hbga, hsounds⟩
  case cell => rw [note?_foldl_putEnd hfits, hlast, Option.map_some, Option.some_or]
  case otherCells =>
    intro other hother
    have hnone : lastEnd? ends (t, other) = none := lastEnd?_eq_none_iff.2 fun noteEnd hnoteEnd hat =>
      hother ((congrArg Prod.snd hat).symm.trans (hlanes noteEnd hnoteEnd))
    rw [note?_foldl_putEnd hfits, hnone, Option.map_none, Option.none_or]

/-! ## On the notes -/

theorem get?_place_of_lt (hfits : placement.Fits draft.laneCount) {id : NoteId} (h : id.index < draft.notes.size) :
    (draft.place rule placement).notes.get? id = draft.notes.get? id := by
  have hindex : id.index < draft.notes.all.length := by rwa [NoteStore.length_all]
  obtain ⟨index⟩ := id
  rw [← NoteStore.getElem?_all, ← NoteStore.getElem?_all, all_place hfits, List.getElem?_append_left hindex]

theorem get?_place_of_mem_ends (hfits : placement.Fits draft.laneCount) {noteEnd : NoteEnd}
    (h : noteEnd ∈ placement.ends rule draft.notes.size) :
    (draft.place rule placement).notes.get? noteEnd.id =
      some (noteEnd.noteOn (draft.timelineAt noteEnd.time)) := by
  have hends : noteEnd ∈ Placement.endsFrom rule draft.notes.size [placement] := by
    simpa [Placement.endsFrom] using h
  refine Stroke.get?_of_mem_endsFrom (fun other hother => ?_) hends
  rwa [List.mem_singleton.1 hother]

/-! ## Placements -/

theorem gains_place (hlaned : draft.Laned) (hfits : placement.Fits draft.laneCount)
    (hlanes : ∀ noteEnd ∈ placement.ends rule draft.notes.size, noteEnd.lane = lane) :
    draft.Gains lane (placement.ends rule draft.notes.size) (draft.place rule placement) := by
  have htimes : (placement.ends rule draft.notes.size).map NoteEnd.time = placement.times :=
    placement.map_time_ends rule _
  refine ⟨draft.timing_place rule placement, draft.laneCount_place rule placement, ?size,
    fun id => get?_place_of_lt hfits, fun noteEnd => get?_place_of_mem_ends hfits, ?elsewhere, ?there⟩
  case size => rw [size_place hfits, Placement.length_ends]
  case elsewhere =>
    intro t ht
    refine get?_congr ?_ ?_
    · rw [htimes] at ht
      rw [has_place hfits, or_iff_right ht]
    · rw [timelineAt_place t hfits, foldl_putEnd_of_not_mem ht]
  case there =>
    intro noteEnd hmem
    have hcell : noteEnd.cell = (noteEnd.time, lane) := by rw [NoteEnd.cell, hlanes noteEnd hmem]
    obtain ⟨last, hlast⟩ : ∃ last,
        lastEnd? (placement.ends rule draft.notes.size) (noteEnd.time, lane) = some last := by
      refine Option.ne_none_iff_exists'.1 fun hnone => ?_
      exact lastEnd?_eq_none_iff.1 hnone noteEnd hmem hcell
    have hhas : (draft.place rule placement).Has noteEnd.time := by
      rw [has_place hfits, ← htimes]
      exact .inl (List.mem_map_of_mem hmem)
    have hlane : lane < (draft.timelineAt noteEnd.time).laneCount := by
      rw [hlaned, ← hlanes noteEnd hmem]
      exact Placement.lane_lt_of_mem_ends hfits noteEnd hmem
    refine ⟨last, _, hlast, get?_eq_some_iff.2 ⟨hhas, rfl⟩, ?_⟩
    rw [timelineAt_place _ hfits]
    exact gains_foldl_putEnd hlanes hlane hlast

theorem placeNote?_eq (draft : Draft) (rule : LongNoteRule) (time : Int) (lane : Nat) :
    draft.placeNote? time lane =
      if lane < draft.laneCount then some (draft.place rule (.normal lane time)) else none := by
  simp only [place, placeNote?]
  split <;> rfl

theorem placeLong?_eq (draft : Draft) (head tail : Int) (lane : Nat) (rule : LongNoteRule) :
    draft.placeLong? head tail lane rule =
      if lane < draft.laneCount then some (draft.place rule (.long lane head tail)) else none := by
  simp only [place, placeLong?]
  split <;> rfl

/-! ## Drafts that edits reach -/

/-- Whether edits lead from a draft without timelines and notes to this one. -/
def Reachable (draft : Draft) : Prop :=
  ∃ timing laneCount edits, draft = ({ timing, laneCount } : Draft).editAll edits

theorem Reachable.laned (h : draft.Reachable) : draft.Laned := by
  obtain ⟨timing, laneCount, edits, rfl⟩ := h
  exact ((coherent_empty timing laneCount).editAll edits).laneCount

/-- A placement is put on its lane as a whole, or not at all where the lane does
not exist. -/
theorem Reachable.atomic (h : draft.Reachable) {placed? : Option Draft}
    (hplaced : placed? = if lane < draft.laneCount then some (draft.place rule placement) else none)
    (hfits : lane < draft.laneCount → placement.Fits draft.laneCount)
    (hlanes : ∀ noteEnd ∈ placement.ends rule draft.notes.size, noteEnd.lane = lane) :
    (placed? = none ↔ draft.laneCount ≤ lane) ∧ (draft.laneCount ≤ lane → placed?.getD draft = draft) ∧
      ∀ after, placed? = some after →
        placed?.getD draft = after ∧ draft.Gains lane (placement.ends rule draft.notes.size) after := by
  by_cases hlane : lane < draft.laneCount
  · rw [if_pos hlane] at hplaced
    subst hplaced
    refine ⟨by simpa using hlane, fun hle => absurd hlane (Nat.not_lt.2 hle), fun after hafter => ?_⟩
    cases hafter
    exact ⟨rfl, gains_place h.laned (hfits hlane) hlanes⟩
  · rw [if_neg hlane] at hplaced
    subst hplaced
    exact ⟨by simpa using hlane, fun _ => rfl, fun after hafter => by cases hafter⟩

/-- **Placing is atomic and local**, whatever the edits before, the lane and the
times: the ends of a long note may be at one millisecond or in reverse order. No
note is placed just when the lane does not exist, and the draft stays as it was
then; else the draft gains the note, or the head and the tail, and nothing more. -/
theorem Reachable.placing (h : draft.Reachable) (lane : Nat) :
    (∀ time, (draft.placeNote? time lane = none ↔ draft.laneCount ≤ lane) ∧
      (draft.laneCount ≤ lane → draft.edit (.note time lane) = draft) ∧
      ∀ after, draft.placeNote? time lane = some after →
        draft.edit (.note time lane) = after ∧
          draft.Gains lane [⟨time, lane, ⟨draft.notes.size⟩, .normal⟩] after) ∧
    ∀ head tail rule, (draft.placeLong? head tail lane rule = none ↔ draft.laneCount ≤ lane) ∧
      (draft.laneCount ≤ lane → draft.edit (.long head tail lane rule) = draft) ∧
      ∀ after, draft.placeLong? head tail lane rule = some after →
        draft.edit (.long head tail lane rule) = after ∧
          draft.Gains lane [⟨head, lane, ⟨draft.notes.size⟩, .longHead ⟨draft.notes.size + 1⟩ rule⟩,
            ⟨tail, lane, ⟨draft.notes.size + 1⟩, .longTail ⟨draft.notes.size⟩ rule⟩] after := by
  refine ⟨fun time => ?_, fun head tail rule => ?_⟩
  · refine h.atomic (draft.placeNote?_eq .longNote time lane) id fun noteEnd hmem => ?_
    exact List.mem_singleton.1 hmem ▸ rfl
  · refine h.atomic (draft.placeLong?_eq head tail lane rule) id fun noteEnd hmem => ?_
    simp only [Placement.ends, List.mem_cons, List.not_mem_nil, or_false] at hmem
    rcases hmem with rfl | rfl <;> rfl

/-! ## A lane with notes on it -/

/-- A note with a sound at its millisecond, and a long note whose tail takes the
cell of the note. -/
def crowding : List Edit := [.note 1000 3, .sound 1000 0, .long 500 1000 3 .longNote]

theorem exists_oneTempo : ∃ timing, Timing.ofPoints? 0 [{ time := 0, beatLength := 500 }] = some (timing, []) := by
  have hmade : (Timing.ofPoints? 0 [{ time := 0, beatLength := 500 }]).any (fun made => made.2 = []) = true := by
    decide +kernel
  obtain ⟨⟨timing, skipped⟩, hmade, hskipped⟩ := (Option.any_eq_true ..).1 hmade
  obtain rfl : skipped = [] := of_decide_eq_true hskipped
  exact ⟨timing, hmade⟩

/-- A long note in reverse order, on the cell of the other one's tail; and the
same note on a lane that does not exist. -/
theorem Reachable.placing_crowded :
    ∃ timing draft after, Timing.ofPoints? 0 [{ time := 0, beatLength := 500 }] = some (timing, []) ∧
      draft = ({ timing, laneCount := 8 } : Draft).editAll crowding ∧ draft.Reachable ∧
      draft.placeLong? 3000 1000 3 .chargeNote = some after ∧
      draft.Gains 3 [⟨3000, 3, ⟨4⟩, .longHead ⟨5⟩ .chargeNote⟩, ⟨1000, 3, ⟨5⟩, .longTail ⟨4⟩ .chargeNote⟩] after ∧
      draft.placeLong? 3000 1000 8 .chargeNote = none ∧ draft.edit (.long 3000 1000 8 .chargeNote) = draft := by
  obtain ⟨timing, hmade⟩ := exists_oneTempo
  let draft := ({ timing, laneCount := 8 } : Draft).editAll crowding
  have hreachable : draft.Reachable := ⟨timing, 8, crowding, rfl⟩
  have hlanes : draft.laneCount = 8 := laneCount_editAll _ _
  have hsize : draft.notes.size = 4 := rfl
  obtain ⟨-, hlong⟩ := hreachable.placing 3
  obtain ⟨hnone, -, hsome⟩ := hlong 3000 1000 .chargeNote
  obtain ⟨after, hafter⟩ := Option.ne_none_iff_exists'.1 fun h => absurd (hnone.1 h) (by rw [hlanes]; decide)
  obtain ⟨-, hgains⟩ := hsome after hafter
  obtain ⟨-, hmissing⟩ := hreachable.placing 8
  obtain ⟨hmissing, hstays, -⟩ := hmissing 3000 1000 .chargeNote
  exact ⟨timing, draft, after, hmade, rfl, hreachable, hafter, hsize ▸ hgains,
    hmissing.2 (Nat.le_of_eq hlanes), hstays (Nat.le_of_eq hlanes)⟩

end Draft

end ManiaChart
