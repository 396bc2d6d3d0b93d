/-
Pairs of stored notes. The ends of a long note name each other by their ids, and
the tail is stored right after its head (`NoteStore.Paired`), so that going from
one end to the other and on again comes back (`Paired.pairOf?_pairOf?`).
Storing more notes beside them and moving notes in time keep it so.
-/
import ManiaChart.Chart.Note

namespace ManiaChart

namespace NoteStore

/-- What the note of an id is. -/
def kind? (store : NoteStore) (id : NoteId) : Option NoteKind := (store.get? id).map Note.kind

/-- The ends of long notes name each other, the tail stored right after its
head. -/
structure Paired (store : NoteStore) : Prop where
  tail_of_head : ∀ {id tail rule}, store.kind? id = some (.longHead tail rule) →
    tail = ⟨id.index + 1⟩ ∧ store.kind? tail = some (.longTail id rule)
  head_of_tail : ∀ {id head rule}, store.kind? id = some (.longTail head rule) →
    id = ⟨head.index + 1⟩ ∧ store.kind? head = some (.longHead id rule)

variable {store : NoteStore} {id other : NoteId} {note : Note}

theorem lt_size_of_get? (h : store.get? id = some note) : id.index < store.size := by
  obtain ⟨hlt, -⟩ := Array.getElem?_eq_some_iff.1 h
  exact hlt

theorem get?_eq_none_of_size_le (h : store.size ≤ id.index) : store.get? id = none :=
  Array.getElem?_eq_none h

theorem lt_size_of_kind? {kind : NoteKind} (h : store.kind? id = some kind) : id.index < store.size := by
  obtain ⟨note, hnote, -⟩ := Option.map_eq_some_iff.1 h
  exact lt_size_of_get? hnote

theorem get?_push_of_ne (h : other ≠ store.nextId) : (store.push note).get? other = store.get? other := by
  rw [get?_push, if_neg h]

theorem get?_push_of_some {stored : Note} (note : Note) (h : store.get? id = some stored) :
    (store.push note).get? id = some stored := by
  rw [get?_push_of_ne ?_, h]
  rintro rfl
  exact Nat.lt_irrefl _ (lt_size_of_get? h)

theorem kind?_push (store : NoteStore) (note : Note) (id : NoteId) :
    (store.push note).kind? id = if id = store.nextId then some note.kind else store.kind? id := by
  rw [kind?, get?_push]
  split <;> rfl

theorem kind?_push_of_some {kind : NoteKind} (note : Note) (h : store.kind? id = some kind) :
    (store.push note).kind? id = some kind := by
  obtain ⟨stored, hstored, hkind⟩ := Option.map_eq_some_iff.1 h
  rw [kind?, get?_push_of_some note hstored, Option.map_some, hkind]

theorem get?_place (store : NoteStore) (id other : NoteId) (measure : Binary64) (microTime : Int) :
    (store.place id measure microTime).get? other =
      if other = id then (store.get? other).map (·.place measure microTime) else store.get? other :=
  store.get?_modify ..

@[simp] theorem kind?_place (store : NoteStore) (id other : NoteId) (measure : Binary64) (microTime : Int) :
    (store.place id measure microTime).kind? other = store.kind? other := by
  rw [kind?, get?_place, kind?]
  split
  · cases store.get? other <;> rfl
  · rfl

theorem pushLong_eq (store : NoteStore) (sound : Option Nat) (rule : LongNoteRule) :
    store.pushLong sound rule =
      (store.push { kind := .longHead store.nextPair.2 rule, sound }).push
        { kind := .longTail store.nextPair.1 rule, sound } := rfl

@[simp] theorem size_pushLong (store : NoteStore) (sound : Option Nat) (rule : LongNoteRule) :
    (store.pushLong sound rule).size = store.size + 2 := by
  rw [pushLong_eq, size_push, size_push]

theorem kind?_pushLong (store : NoteStore) (sound : Option Nat) (rule : LongNoteRule) (id : NoteId) :
    (store.pushLong sound rule).kind? id =
      if id = store.nextPair.2 then some (.longTail store.nextPair.1 rule)
      else if id = store.nextPair.1 then some (.longHead store.nextPair.2 rule)
      else store.kind? id := by
  rw [pushLong_eq, kind?_push, kind?_push]
  simp only [nextId, nextPair, size_push]
  rfl

theorem kind?_pushLong_of_some {kind : NoteKind} (sound : Option Nat) (rule : LongNoteRule)
    (h : store.kind? id = some kind) : (store.pushLong sound rule).kind? id = some kind := by
  rw [pushLong_eq]
  exact kind?_push_of_some _ (kind?_push_of_some _ h)

/-- The ids of a long note are fresh. -/
theorem get?_pushLong_of_lt {sound : Option Nat} {rule : LongNoteRule} (h : id.index < store.size) :
    (store.pushLong sound rule).get? id = store.get? id := by
  obtain ⟨stored, hstored⟩ : ∃ stored, store.get? id = some stored := ⟨_, Array.getElem?_eq_getElem h⟩
  rw [pushLong_eq, hstored]
  exact get?_push_of_some _ (get?_push_of_some _ hstored)

theorem Paired.empty : Paired {} := by
  refine ⟨?_, ?_⟩ <;> intro id other rule h <;> cases lt_size_of_kind? h

/-- Pairs stay pairs when notes are stored beside them, in pairs as well. -/
theorem Paired.extend {after : NoteStore} (h : store.Paired)
    (hkept : ∀ {id kind}, store.kind? id = some kind → after.kind? id = some kind)
    (hheads : ∀ {id tail rule}, after.kind? id = some (.longHead tail rule) →
      store.kind? id = some (.longHead tail rule) ∨
        tail = ⟨id.index + 1⟩ ∧ after.kind? tail = some (.longTail id rule))
    (htails : ∀ {id head rule}, after.kind? id = some (.longTail head rule) →
      store.kind? id = some (.longTail head rule) ∨
        id = ⟨head.index + 1⟩ ∧ after.kind? head = some (.longHead id rule)) : after.Paired := by
  refine ⟨?_, ?_⟩
  · intro id tail rule hkind
    rcases hheads hkind with hold | hnew
    · obtain ⟨hnext, htail⟩ := h.tail_of_head hold
      exact ⟨hnext, hkept htail⟩
    · exact hnew
  · intro id head rule hkind
    rcases htails hkind with hold | hnew
    · obtain ⟨hnext, hhead⟩ := h.head_of_tail hold
      exact ⟨hnext, hkept hhead⟩
    · exact hnew

theorem Paired.push (h : store.Paired) (hnormal : note.kind = .normal) : (store.push note).Paired := by
  refine h.extend (kind?_push_of_some note) ?_ ?_
  all_goals
    intro id other rule hkind
    rw [kind?_push, hnormal] at hkind
    split at hkind
    · cases hkind
    · exact .inl hkind

theorem Paired.pushLong (h : store.Paired) (sound : Option Nat) (rule : LongNoteRule) :
    (store.pushLong sound rule).Paired := by
  have hne : store.nextPair.1 ≠ store.nextPair.2 := by simp [nextPair]
  refine h.extend (kind?_pushLong_of_some sound rule) ?_ ?_
  · intro id tail rule' hkind
    rw [kind?_pushLong] at hkind
    split at hkind
    next => cases hkind
    next =>
      split at hkind
      next hhead =>
        cases hkind
        exact .inr ⟨by rw [hhead]; rfl, by rw [kind?_pushLong, if_pos rfl, hhead]⟩
      next => exact .inl hkind
  · intro id head rule' hkind
    rw [kind?_pushLong] at hkind
    split at hkind
    next htail =>
      cases hkind
      exact .inr ⟨htail, by rw [kind?_pushLong, if_neg hne, if_pos rfl, htail]⟩
    next =>
      split at hkind
      next => cases hkind
      next => exact .inl hkind

theorem Paired.place (h : store.Paired) (id : NoteId) (measure : Binary64) (microTime : Int) :
    (store.place id measure microTime).Paired :=
  h.extend (fun hkind => by rw [kind?_place, hkind]) (fun hkind => .inl (by rwa [kind?_place] at hkind))
    fun hkind => .inl (by rwa [kind?_place] at hkind)

/-! ## From one end to the other -/

theorem pairOf?_eq_some_iff :
    store.pairOf? id = some other ↔
      ∃ rule, store.kind? id = some (.longHead other rule) ∨ store.kind? id = some (.longTail other rule) := by
  simp only [pairOf?, kind?]
  cases store.get? id with
  | none => simp
  | some note => cases hkind : note.kind <;> simp [Note.pair?, hkind]

theorem isSome_pairOf?_iff (h : store.get? id = some note) :
    (store.pairOf? id).isSome = true ↔ note.isLong = true := by
  simp only [pairOf?, h, Option.bind_some]
  cases hkind : note.kind <;> simp [Note.pair?, Note.isLong, hkind]

/-- The other end is another one, and its other end is the first. -/
theorem Paired.pairOf?_pairOf? (h : store.Paired) (hpair : store.pairOf? id = some other) :
    other ≠ id ∧ store.pairOf? other = some id := by
  obtain ⟨rule, hhead | htail⟩ := pairOf?_eq_some_iff.1 hpair
  · obtain ⟨hnext, hkind⟩ := h.tail_of_head hhead
    refine ⟨?_, pairOf?_eq_some_iff.2 ⟨rule, .inr hkind⟩⟩
    rintro rfl
    have hindex := congrArg NoteId.index hnext
    simp only at hindex
    omega
  · obtain ⟨hnext, hkind⟩ := h.head_of_tail htail
    refine ⟨?_, pairOf?_eq_some_iff.2 ⟨rule, .inl hkind⟩⟩
    rintro rfl
    have hindex := congrArg NoteId.index hnext
    simp only at hindex
    omega

end NoteStore

end ManiaChart
