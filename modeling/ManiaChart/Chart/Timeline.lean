/-
Timelines: everything of a chart that happens at one millisecond.
-/
import ManiaChart.Chart.Note

namespace ManiaChart

/-- A point of time in a chart. -/
structure Timeline where
  /-- Microseconds. -/
  microTime : Int
  measure : Binary64
  /-- Beats per minute. -/
  bpm : Binary64
  scroll : Binary64
  hasMeasureLine : Bool := false
  /-- The index of the background file shown from here. -/
  bga : Option Nat := none
  /-- The background notes, in the order they were added. -/
  soundNotes : Array NoteId := #[]
  cells : Array (Option NoteId)
deriving DecidableEq

namespace Timeline

/-- Whole milliseconds, a fraction dropped toward zero. -/
def milliTime (timeline : Timeline) : Int := timeline.microTime.tdiv 1000

def laneCount (timeline : Timeline) : Nat := timeline.cells.size

def note? (timeline : Timeline) (lane : Nat) : Option NoteId := timeline.cells[lane]?.join

def laneNotes (timeline : Timeline) : List (Nat × NoteId) :=
  (timeline.cells.toList.mapIdx fun lane note? => note?.map (lane, ·)).filterMap id

def hasNote (timeline : Timeline) : Bool := timeline.cells.any Option.isSome

/-- Whether there is something to play or to show. -/
def hasContent (timeline : Timeline) : Bool :=
  timeline.hasNote || !timeline.soundNotes.isEmpty || timeline.bga.isSome

/-- Puts a note on a lane, in place of the one there; nothing changes for a
lane that does not exist. -/
def setNote (timeline : Timeline) (lane : Nat) (note : NoteId) : Timeline :=
  { timeline with cells := timeline.cells.setIfInBounds lane (some note) }

def addSoundNote (timeline : Timeline) (note : NoteId) : Timeline :=
  { timeline with soundNotes := timeline.soundNotes.push note }

theorem note?_setNote (timeline : Timeline) (lane other : Nat) (note : NoteId)
    (h : lane < timeline.laneCount) :
    (timeline.setNote lane note).note? other = if other = lane then some note else timeline.note? other := by
  by_cases hl : other = lane
  · subst hl
    have h : other < timeline.cells.size := h
    simp [note?, setNote, h]
  · have hl' : lane ≠ other := fun he => hl he.symm
    simp [note?, setNote, hl, hl']

end Timeline

end ManiaChart
