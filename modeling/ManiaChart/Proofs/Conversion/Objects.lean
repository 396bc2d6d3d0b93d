/-
What hit objects become, told without the layout. Every column of a layout has
a lane (`LaneLayout.exists_laneAt?`), so no object is lost for want of one, and
what an object leaves in the store hangs on its times alone
(`Placement.notes_ofObject`): nothing before zero or for a hold note whose tail
cannot be read, one note for an object that is hit once, a pair for a hold note
that ends after it starts.
-/
import ManiaChart.Proofs.Conversion.Cells

namespace ManiaChart

/-! ## Lanes -/

theorem LaneLayout.keyCount_le {keyCount : Nat} {layout : LaneLayout} (h : ofKeyCount? keyCount = some layout) :
    layout.keyCount ≤ 16 := by
  simp only [ofKeyCount?] at h
  split at h <;> cases h <;> decide

theorem LaneLayout.columns_isSome {keyCount : Nat} {layout : LaneLayout}
    (h : ofKeyCount? keyCount = some layout) :
    0 < layout.keyCount ∧ ∀ column < layout.keyCount, (layout.columns[column]?.join).isSome := by
  simp only [ofKeyCount?] at h
  split at h <;> cases h <;> decide

theorem LaneLayout.columnAt_lt {layout : LaneLayout} (h : 0 < layout.keyCount) (x : Int) :
    layout.columnAt x < layout.keyCount := by
  unfold columnAt
  omega

theorem LaneLayout.exists_laneAt? {keyCount : Nat} {layout : LaneLayout}
    (h : ofKeyCount? keyCount = some layout) (x : Int) : ∃ lane, layout.laneAt? x = some lane := by
  obtain ⟨hpos, hcolumns⟩ := columns_isSome h
  exact Option.isSome_iff_exists.1 (hcolumns _ (columnAt_lt hpos x))

/-! ## Objects -/

namespace HitObject

/-- The tail time of a hold note, as written; none if it is missing or no
number. -/
def tail? (object : HitObject) : Option Int :=
  object.tailTime?.bind fun text => (Field.integer "hold tail time" text.toList).toOption

/-- Whether a hit object leaves nothing in a chart: it stands before zero, or is
a hold note whose tail cannot be read. -/
def PlacesNothing (object : HitObject) : Prop :=
  object.time < 0 ∨ object.isHold = true ∧ object.tail? = none

instance (object : HitObject) : Decidable object.PlacesNothing :=
  inferInstanceAs (Decidable (_ ∨ _))

/-- What is reported of a hold note whose tail cannot be read. -/
def omission? (object : HitObject) : Option Omission :=
  if 0 ≤ object.time ∧ object.isHold = true ∧ object.tail? = none then
    some (.unreadableTail object.time (object.tailTime?.getD ""))
  else none

end HitObject

/-- A note at a millisecond, not measured. -/
def Note.timed (kind : NoteKind) (sound : Option Nat) (time : Int) : Note :=
  { kind, sound, microTime := time * 1000 }

/-- The note of an end, not measured. -/
def NoteEnd.note (noteEnd : NoteEnd) : Note := .timed noteEnd.kind none noteEnd.time

/-- The notes of a hit object, not measured, stored from the id `next` on. -/
def HitObject.notes (rule : LongNoteRule) (next : Nat) (object : HitObject) : List Note :=
  let start := object.time + Plan.alignmentOffset
  if object.time < 0 then []
  else if object.isHold then
    match object.tail? with
    | none => []
    | some tail =>
      if tail ≤ object.time then [.timed .normal none start]
      else [.timed (.longHead ⟨next + 1⟩ rule) none start,
        .timed (.longTail ⟨next⟩ rule) none (tail + Plan.alignmentOffset)]
  else [.timed .normal none start]

theorem HitObject.notes_eq_nil_iff {rule : LongNoteRule} {next : Nat} {object : HitObject} :
    object.notes rule next = [] ↔ object.PlacesNothing := by
  unfold notes PlacesNothing
  by_cases htime : object.time < 0
  · simp [htime]
  · cases hhold : object.isHold with
    | false => simp [htime]
    | true =>
      cases htail : object.tail? with
      | none => simp
      | some tail => by_cases hle : tail ≤ object.time <;> simp [htime, hle]

/-! ## What objects become -/

namespace Placement

theorem tailTime_eq (object : HitObject) :
    tailTime object = match object.tail? with
      | some time => .ok time
      | none => .error (.unreadableTail object.time (object.tailTime?.getD "")) := by
  unfold tailTime HitObject.tail?
  cases object.tailTime? with
  | none => rfl
  | some text => cases hread : Field.integer "hold tail time" text.toList <;> simp [hread, Except.toOption]

/-- On its lane, an object becomes what its times say; moved by one offset, they
compare as they are written. -/
theorem exists_ofObject {keyCount : Nat} {layout : LaneLayout}
    (h : LaneLayout.ofKeyCount? keyCount = some layout) (offset : Int) (object : HitObject) :
    ∃ lane, ofObject layout offset object =
      if object.time < 0 then .ok skipped
      else if object.isHold then
        match object.tail? with
        | none => .error (.unreadableTail object.time (object.tailTime?.getD ""))
        | some tail =>
          if tail ≤ object.time then .ok (normal lane (object.time + offset))
          else .ok (long lane (object.time + offset) (tail + offset))
      else .ok (normal lane (object.time + offset)) := by
  obtain ⟨lane, hlane⟩ := LaneLayout.exists_laneAt? h object.x
  refine ⟨lane, ?_⟩
  unfold ofObject
  rw [hlane, tailTime_eq]
  cases object.tail? with
  | none => rfl
  | some tail =>
    by_cases hle : tail ≤ object.time
    · simp [hle, bind, Except.bind, pure, Except.pure]
    · simp [hle, bind, Except.bind, pure, Except.pure]

/-- An object leaves the notes that its times say, whatever the layout. -/
theorem notes_ofObject {keyCount : Nat} {layout : LaneLayout}
    (h : LaneLayout.ofKeyCount? keyCount = some layout) (rule : LongNoteRule) (next : Nat)
    (object : HitObject) :
    object.notes rule next = match ofObject layout Plan.alignmentOffset object with
      | .ok placement => (placement.ends rule next).map NoteEnd.note
      | .error _ => [] := by
  obtain ⟨lane, hobject⟩ := exists_ofObject h Plan.alignmentOffset object
  rw [hobject]
  unfold HitObject.notes
  split
  · rfl
  split
  · cases object.tail? with
    | none => rfl
    | some tail => by_cases hle : tail ≤ object.time <;> simp [hle, ends, NoteEnd.note]
  · rfl

theorem omission_ofObject {keyCount : Nat} {layout : LaneLayout}
    (h : LaneLayout.ofKeyCount? keyCount = some layout) (offset : Int) (object : HitObject) :
    Omission.of? (ofObject layout offset object) = object.omission? := by
  obtain ⟨lane, hobject⟩ := exists_ofObject h offset object
  rw [hobject]
  unfold HitObject.omission?
  by_cases htime : object.time < 0
  · simp [htime, Int.not_le.2 htime, Omission.of?]
  · rw [if_neg htime]
    cases hhold : object.isHold with
    | false => simp [Omission.of?]
    | true =>
      cases htail : object.tail? with
      | none => simp [Omission.of?, Int.not_lt.1 htime]
      | some tail => by_cases hle : tail ≤ object.time <;> simp [hle, Omission.of?]

theorem eq_skipped_of_placesNothing {keyCount : Nat} {layout : LaneLayout}
    (h : LaneLayout.ofKeyCount? keyCount = some layout) {offset : Int} {object : HitObject}
    (hnothing : object.PlacesNothing) {placement : Placement}
    (hobject : ofObject layout offset object = .ok placement) : placement = skipped := by
  obtain ⟨lane, hequal⟩ := exists_ofObject h offset object
  rw [hequal] at hobject
  by_cases htime : object.time < 0
  · rw [if_pos htime] at hobject
    exact (Except.ok.inj hobject).symm
  · obtain ⟨hhold, htail⟩ := hnothing.resolve_left htime
    rw [if_neg htime, if_pos hhold, htail] at hobject
    cases hobject

end Placement

end ManiaChart
