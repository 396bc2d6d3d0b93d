/-
A chart in the making: timelines by millisecond, written to in any order, and
the notes placed on them.

A timeline comes into being when its millisecond is first written to, with the
measure position, tempo and scroll speed of the timing there (`seed`). Whoever
writes to the millisecond later overwrites those values, so the order of
writing is part of the result.
-/
import Std.Data.TreeMap
import ManiaChart.Timing.Basic
import ManiaChart.Chart.Timeline

namespace ManiaChart

/-- Timelines and notes under construction. -/
structure Draft where
  timing : Timing
  laneCount : Nat
  timelines : Std.TreeMap Int Timeline := ∅
  notes : NoteStore := {}

namespace Draft

/-- The timeline at a millisecond before anything is written to it. -/
def seed (draft : Draft) (time : Int) : Timeline :=
  { microTime := time * 1000
    measure := draft.timing.measureAt time
    bpm := draft.timing.bpmAt time
    scroll := draft.timing.scrollAt time
    cells := Array.replicate draft.laneCount none }

def get? (draft : Draft) (time : Int) : Option Timeline := draft.timelines[time]?

/-- The timeline at a millisecond, a fresh one if none was written to. -/
def timelineAt (draft : Draft) (time : Int) : Timeline := (draft.get? time).getD (draft.seed time)

def write (draft : Draft) (time : Int) (f : Timeline → Timeline) : Draft :=
  { draft with timelines := draft.timelines.insert time (f (draft.timelineAt time)) }

/-- Writes to the timeline at a millisecond after its tempo and scroll speed
have been looked up again. -/
def refresh (draft : Draft) (time : Int) (f : Timeline → Timeline := id) : Draft :=
  draft.write time fun timeline =>
    f { timeline with bpm := draft.timing.bpmAt time, scroll := draft.timing.scrollAt time }

/-! ## What writing does to `get?` -/

theorem get?_write (draft : Draft) (time other : Int) (f : Timeline → Timeline) :
    (draft.write time f).get? other =
      if other = time then some (f (draft.timelineAt time)) else draft.get? other := by
  by_cases h : other = time
  · subst h
    simp [get?, write]
  · have h' : ¬time = other := fun he => h he.symm
    simp [get?, write, Std.TreeMap.getElem?_insert, h, h']

/-! ## Notes -/

/-- The note, placed on the timeline at a millisecond. -/
def placed (draft : Draft) (time : Int) (note : Note) : Note :=
  let timeline := draft.timelineAt time
  note.place timeline.measure timeline.microTime

/-- Adds a background note with a sound, under the next id. -/
def addSound (draft : Draft) (time : Int) (sound : Nat) : Draft :=
  { draft.write time (·.addSoundNote draft.notes.nextId) with
    notes := draft.notes.push (draft.placed time (.normal (some sound))) }

/-- Puts a note on a lane, under the next id, if the lane exists. -/
def placeNote? (draft : Draft) (time : Int) (lane : Nat) : Option Draft :=
  if lane < draft.laneCount then
    some { draft.refresh time (·.setNote lane draft.notes.nextId) with
           notes := draft.notes.push (draft.placed time (.normal none)) }
  else none

/-- Puts a stored note on a lane and moves it to the timeline there. -/
def placeStored (draft : Draft) (time : Int) (lane : Nat) (id : NoteId) : Draft :=
  let timeline := draft.timelineAt time
  { draft.refresh time (·.setNote lane id) with
    notes := draft.notes.place id timeline.measure timeline.microTime }

/-- Puts the ends of a long note on a lane, under the next pair of ids, if the
lane exists. -/
def placeLong? (draft : Draft) (head tail : Int) (lane : Nat) (rule : LongNoteRule) : Option Draft :=
  if lane < draft.laneCount then
    let (headId, tailId) := draft.notes.nextPair
    let draft := { draft with notes := draft.notes.pushLong none rule }
    some ((draft.placeStored head lane headId).placeStored tail lane tailId)
  else none

/-! ## The result -/

def size (draft : Draft) : Nat := draft.timelines.size

def isEmpty (draft : Draft) : Bool := draft.timelines.isEmpty

/-- The timelines in ascending time. -/
def toList (draft : Draft) : List Timeline := draft.timelines.toList.map Prod.snd

end Draft

end ManiaChart
