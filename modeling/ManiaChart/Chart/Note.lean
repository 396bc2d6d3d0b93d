/-
The notes of a chart, kept in a store and told apart by their ids.

A long note is two notes, its head and its tail, that refer to each other by
id. Ids count the notes in the order they were stored.
-/
import ManiaChart.Binary64.Basic

namespace ManiaChart

/-- How long notes are judged. -/
inductive LongNoteRule
  /-- As the player chooses. -/
  | undefined
  /-- At the head. -/
  | longNote
  /-- At both ends. -/
  | chargeNote
  /-- At both ends and all the way between. -/
  | hellChargeNote
deriving DecidableEq

structure NoteId where
  index : Nat
deriving DecidableEq

/-- What a note is. An end of a long note names the other end. -/
inductive NoteKind
  | normal
  | longHead (tail : NoteId) (rule : LongNoteRule)
  | longTail (head : NoteId) (rule : LongNoteRule)
deriving DecidableEq

structure Note where
  kind : NoteKind
  sound : Option Nat
  /-- The measure position of the timeline that holds it. -/
  measure : Binary64 := 0
  /-- The time of the timeline that holds it, in microseconds. -/
  microTime : Int := 0
deriving DecidableEq

namespace Note

/-- A note hit once, not placed yet. -/
def normal (sound : Option Nat) : Note := { kind := .normal, sound }

def place (note : Note) (measure : Binary64) (microTime : Int) : Note :=
  { note with measure, microTime }

/-- Whole milliseconds, a fraction dropped toward zero. -/
def milliTime (note : Note) : Int := note.microTime.tdiv 1000

/-- What players read for a note without a sound. -/
def noSound : Int := -2

/-- The index of the sound as players read it: a 32-bit signed number. -/
def soundIndex (note : Note) : Int :=
  match note.sound with
  | some index => if index < 0x80000000 then index else noSound
  | none => noSound

def isLong (note : Note) : Bool :=
  match note.kind with
  | .normal => false
  | .longHead .. | .longTail .. => true

def isLongTail (note : Note) : Bool :=
  match note.kind with
  | .longTail .. => true
  | .normal | .longHead .. => false

def pair? (note : Note) : Option NoteId :=
  match note.kind with
  | .normal => none
  | .longHead other _ | .longTail other _ => some other

def rule? (note : Note) : Option LongNoteRule :=
  match note.kind with
  | .normal => none
  | .longHead _ rule | .longTail _ rule => some rule

end Note

/-- All notes of a chart, in the order of their ids. -/
structure NoteStore where
  notes : Array Note := #[]
deriving DecidableEq

namespace NoteStore

def size (store : NoteStore) : Nat := store.notes.size

def isEmpty (store : NoteStore) : Bool := store.notes.isEmpty

def get? (store : NoteStore) (id : NoteId) : Option Note := store.notes[id.index]?

/-- The id that the next note stored gets. -/
def nextId (store : NoteStore) : NoteId := ⟨store.size⟩

def push (store : NoteStore) (note : Note) : NoteStore := ⟨store.notes.push note⟩

/-- The ids that the two ends of the next long note stored get. -/
def nextPair (store : NoteStore) : NoteId × NoteId := (⟨store.size⟩, ⟨store.size + 1⟩)

/-- Stores the head and the tail of a long note under `nextPair`, not placed
yet. -/
def pushLong (store : NoteStore) (sound : Option Nat) (rule : LongNoteRule) : NoteStore :=
  let (head, tail) := store.nextPair
  (store.push { kind := .longHead tail rule, sound }).push { kind := .longTail head rule, sound }

def modify (store : NoteStore) (id : NoteId) (f : Note → Note) : NoteStore :=
  ⟨store.notes.modify id.index f⟩

def place (store : NoteStore) (id : NoteId) (measure : Binary64) (microTime : Int) : NoteStore :=
  store.modify id fun note => note.place measure microTime

/-- The other end of the long note of an id. -/
def pairOf? (store : NoteStore) (id : NoteId) : Option NoteId := (store.get? id).bind Note.pair?

def toList (store : NoteStore) : List (NoteId × Note) :=
  store.notes.toList.mapIdx fun index note => (⟨index⟩, note)

/-! ## What each operation does to `get?` -/

@[simp] theorem size_push (store : NoteStore) (note : Note) :
    (store.push note).size = store.size + 1 := by
  simp [size, push]

@[simp] theorem size_modify (store : NoteStore) (id : NoteId) (f : Note → Note) :
    (store.modify id f).size = store.size := by
  simp [size, modify]

theorem get?_push (store : NoteStore) (note : Note) (id : NoteId) :
    (store.push note).get? id = if id = store.nextId then some note else store.get? id := by
  obtain ⟨index⟩ := id
  simp [get?, push, nextId, size, Array.getElem?_push]

theorem get?_modify (store : NoteStore) (id other : NoteId) (f : Note → Note) :
    (store.modify id f).get? other =
      if other = id then (store.get? other).map f else store.get? other := by
  obtain ⟨index⟩ := id
  obtain ⟨index'⟩ := other
  simp only [get?, modify, Array.getElem?_modify, NoteId.mk.injEq]
  split <;> split <;> simp_all

end NoteStore

end ManiaChart
