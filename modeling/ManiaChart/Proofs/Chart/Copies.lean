/-
What any run leaves of the notes of a store when notes are copied as well. A copy of
an end of a long note names the other end, which names the first one and not the
copy, so that pairs are no longer all that is stored (`NoteStore.Paired`).

What stays is that each end of a long note is one of a pair that was stored
together, or is of the kind of one (`NoteStore.Descends`). Every edit keeps it, and
so does every run: the other end of any note is one of a pair, and from there on one
goes to and fro within the pair.
-/
import ManiaChart.Proofs.Chart.Pairing

namespace ManiaChart

namespace NoteStore

/-! ## Edits -/

/-- What can be done to the notes of a store. -/
inductive Edit
  /-- A note that is hit once is stored where it was placed. -/
  | push (sound : Option Nat) (measure : Binary64) (microTime : Int)
  | copy (id : NoteId)
  | pushLong (sound : Option Nat) (rule : LongNoteRule)
  | place (id : NoteId) (measure : Binary64) (microTime : Int)

/-- A note that is not stored is neither copied nor moved. -/
def edit (store : NoteStore) : Edit → NoteStore
  | .push sound measure microTime => store.push ((Note.normal sound).place measure microTime)
  | .copy id => ((store.get? id).map store.push).getD store
  | .pushLong sound rule => store.pushLong sound rule
  | .place id measure microTime => store.place id measure microTime

def editAll (store : NoteStore) (edits : List Edit) : NoteStore := edits.foldl edit store

/-- The ids that an edit gives out, each with the note it is given to. -/
def given (store : NoteStore) : Edit → List (NoteId × Note)
  | .push sound measure microTime => [(store.nextId, (Note.normal sound).place measure microTime)]
  | .copy id => (store.get? id).toList.map (store.nextId, ·)
  | .pushLong sound rule =>
    let (head, tail) := store.nextPair
    [(head, { kind := .longHead tail rule, sound }), (tail, { kind := .longTail head rule, sound })]
  | .place .. => []

/-- The ids, head and tail, that an edit gives out to a long note. -/
def givenPairs (store : NoteStore) : Edit → List (NoteId × NoteId)
  | .pushLong .. => [store.nextPair]
  | .push .. | .copy _ | .place .. => []

/-- What the edits of a run give out, one after another. -/
def outcome {α : Type} (answer : NoteStore → Edit → List α) (store : NoteStore) : List Edit → List α
  | [] => []
  | edit :: rest => answer store edit ++ outcome answer (store.edit edit) rest

variable {store : NoteStore} {id other : NoteId} {note : Note} {edits : List Edit} {pairs : List (NoteId × NoteId)}

/-! ## Ids count the notes -/

theorem size_edit (store : NoteStore) (edit : Edit) :
    (store.edit edit).size = store.size + (store.given edit).length := by
  cases edit with
  | push sound measure microTime => exact size_push ..
  | copy id =>
    simp only [NoteStore.edit, given]
    cases store.get? id with
    | none => rfl
    | some note => exact size_push ..
  | pushLong sound rule => exact size_pushLong ..
  | place id measure microTime => exact size_modify ..

theorem map_fst_given (store : NoteStore) (edit : Edit) :
    (store.given edit).map Prod.fst = (List.range' store.size (store.given edit).length).map NoteId.mk := by
  cases edit with
  | push sound measure microTime => rfl
  | copy id =>
    simp only [given]
    cases store.get? id <;> rfl
  | pushLong sound rule => rfl
  | place id measure microTime => rfl

theorem map_fst_outcome_given (store : NoteStore) (edits : List Edit) :
    (outcome given store edits).map Prod.fst =
        (List.range' store.size (outcome given store edits).length).map NoteId.mk ∧
      (store.editAll edits).size = store.size + (outcome given store edits).length := by
  induction edits generalizing store with
  | nil => exact ⟨rfl, rfl⟩
  | cons edit rest ih =>
    obtain ⟨hids, hsize⟩ := ih (store.edit edit)
    rw [size_edit] at hids hsize
    refine ⟨?_, ?_⟩
    · rw [outcome, List.map_append, hids, map_fst_given, List.length_append, ← List.map_append, List.range'_append_1]
    · rw [outcome, List.length_append]
      exact hsize.trans (Nat.add_assoc ..)

/-! ## Notes keep their ids -/

theorem get?_edit_of_mem_given {edit : Edit} (h : (id, note) ∈ store.given edit) :
    (store.edit edit).get? id = some note := by
  cases edit with
  | push sound measure microTime =>
    obtain ⟨rfl, rfl⟩ := Prod.mk.inj (List.mem_singleton.1 h)
    exact (store.get?_push ..).trans (if_pos rfl)
  | copy source =>
    simp only [given, List.mem_map, Option.mem_toList] at h
    obtain ⟨stored, hstored, hpair⟩ := h
    obtain ⟨rfl, rfl⟩ := Prod.mk.inj hpair
    simp only [NoteStore.edit, hstored, Option.map_some, Option.getD_some]
    exact (store.get?_push ..).trans (if_pos rfl)
  | pushLong sound rule =>
    simp only [NoteStore.edit, pushLong_eq]
    rcases List.mem_cons.1 h with hhead | htail
    · obtain ⟨rfl, rfl⟩ := Prod.mk.inj hhead
      rw [get?_push_of_ne (by simp [nextPair, nextId]), get?_push]
      exact if_pos rfl
    · obtain ⟨rfl, rfl⟩ := Prod.mk.inj (List.mem_singleton.1 htail)
      rw [get?_push, nextId, size_push]
      exact if_pos rfl
  | place source measure microTime => cases h

/-- An edit takes no note away and changes none but for its place. -/
theorem get?_edit (h : store.get? id = some note) (edit : Edit) :
    ∃ measure microTime, (store.edit edit).get? id = some (note.place measure microTime) := by
  have hplace : note.place note.measure note.microTime = note := rfl
  cases edit with
  | push sound measure microTime =>
    exact ⟨note.measure, note.microTime, get?_push_of_some _ h⟩
  | copy source =>
    refine ⟨note.measure, note.microTime, ?_⟩
    simp only [NoteStore.edit, hplace]
    cases store.get? source with
    | none => exact h
    | some stored => exact get?_push_of_some stored h
  | pushLong sound rule =>
    exact ⟨note.measure, note.microTime, by rw [hplace, NoteStore.edit, get?_pushLong_of_lt (lt_size_of_get? h), h]⟩
  | place source measure microTime =>
    rw [NoteStore.edit, get?_place, h]
    split
    · exact ⟨measure, microTime, rfl⟩
    · exact ⟨note.measure, note.microTime, rfl⟩

theorem get?_editAll (h : store.get? id = some note) (edits : List Edit) :
    ∃ measure microTime, (store.editAll edits).get? id = some (note.place measure microTime) := by
  induction edits generalizing store note with
  | nil => exact ⟨note.measure, note.microTime, h⟩
  | cons edit rest ih =>
    obtain ⟨_, _, hedit⟩ := get?_edit h edit
    obtain ⟨measure, microTime, hrest⟩ := ih hedit
    exact ⟨measure, microTime, hrest⟩

theorem get?_editAll_of_mem_given (h : (id, note) ∈ outcome given store edits) :
    ∃ measure microTime, (store.editAll edits).get? id = some (note.place measure microTime) := by
  induction edits generalizing store with
  | nil => cases h
  | cons edit rest ih =>
    rcases List.mem_append.1 h with hgiven | hrest
    · exact get?_editAll (get?_edit_of_mem_given hgiven) rest
    · exact ih hrest

/-! ## Where the ends of long notes come from -/

/-- The ends of long notes stored in pairs name each other, and any other end of a
long note is of the kind of one of them. -/
structure Descends (store : NoteStore) (pairs : List (NoteId × NoteId)) : Prop where
  ends : ∀ {head tail}, (head, tail) ∈ pairs → tail = ⟨head.index + 1⟩ ∧
    ∃ rule, store.kind? head = some (.longHead tail rule) ∧ store.kind? tail = some (.longTail head rule)
  origin : ∀ {id kind}, store.kind? id = some kind → kind = .normal ∨
    ∃ head tail, (head, tail) ∈ pairs ∧ (store.kind? head = some kind ∨ store.kind? tail = some kind)

theorem Descends.empty : Descends {} [] := by
  refine ⟨fun hmem => ?_, fun hkind => ?_⟩
  · cases hmem
  · cases lt_size_of_kind? hkind

/-- Pairs stay pairs when nothing but notes of stored kinds comes to them. -/
theorem Descends.extend {after : NoteStore} (h : store.Descends pairs)
    (hkept : ∀ {id kind}, store.kind? id = some kind → after.kind? id = some kind)
    (hnew : ∀ {id kind}, after.kind? id = some kind → kind = .normal ∨ ∃ other, store.kind? other = some kind) :
    after.Descends pairs := by
  refine ⟨fun hmem => ?_, fun hkind => ?_⟩
  · obtain ⟨hnext, rule, hhead, htail⟩ := h.ends hmem
    exact ⟨hnext, rule, hkept hhead, hkept htail⟩
  · rcases hnew hkind with hnormal | ⟨other, hother⟩
    · exact .inl hnormal
    · rcases h.origin hother with hnormal | ⟨head, tail, hmem, hends⟩
      · exact .inl hnormal
      · exact .inr ⟨head, tail, hmem, hends.imp hkept hkept⟩

theorem Descends.push (h : store.Descends pairs)
    (hnote : note.kind = .normal ∨ ∃ other, store.kind? other = some note.kind) :
    (store.push note).Descends pairs := by
  refine h.extend (kind?_push_of_some note) fun {id kind} hkind => ?_
  rw [kind?_push] at hkind
  split at hkind
  · cases hkind
    exact hnote
  · exact .inr ⟨id, hkind⟩

/-- A long note comes to the pairs with its two ends. -/
theorem Descends.pushLong (h : store.Descends pairs) (sound : Option Nat) (rule : LongNoteRule) :
    (store.pushLong sound rule).Descends (pairs ++ [store.nextPair]) := by
  have hhead : (store.pushLong sound rule).kind? store.nextPair.1 = some (.longHead store.nextPair.2 rule) := by
    rw [kind?_pushLong, if_neg (by simp [nextPair]), if_pos rfl]
  have htail : (store.pushLong sound rule).kind? store.nextPair.2 = some (.longTail store.nextPair.1 rule) := by
    rw [kind?_pushLong, if_pos rfl]
  refine ⟨fun hmem => ?_, fun {id kind} hkind => ?_⟩
  · rcases List.mem_append.1 hmem with hold | hnew
    · obtain ⟨hnext, rule', hhead', htail'⟩ := h.ends hold
      exact ⟨hnext, rule', kind?_pushLong_of_some sound rule hhead', kind?_pushLong_of_some sound rule htail'⟩
    · obtain ⟨rfl, rfl⟩ := Prod.mk.inj (List.mem_singleton.1 hnew)
      exact ⟨rfl, rule, hhead, htail⟩
  · have hself : store.nextPair ∈ pairs ++ [store.nextPair] := List.mem_append_right _ List.mem_cons_self
    have hcases := hkind
    rw [kind?_pushLong] at hcases
    split at hcases
    next htail =>
      subst htail
      exact .inr ⟨_, _, hself, .inr hkind⟩
    next =>
      split at hcases
      next hhead =>
        subst hhead
        exact .inr ⟨_, _, hself, .inl hkind⟩
      next =>
        rcases h.origin hcases with hnormal | ⟨head, tail, hmem, hends⟩
        · exact .inl hnormal
        · exact .inr ⟨head, tail, List.mem_append_left _ hmem,
            hends.imp (kind?_pushLong_of_some sound rule) (kind?_pushLong_of_some sound rule)⟩

theorem Descends.place (h : store.Descends pairs) (id : NoteId) (measure : Binary64) (microTime : Int) :
    (store.place id measure microTime).Descends pairs :=
  h.extend (fun hkind => by rw [kind?_place, hkind]) fun {other kind} hkind =>
    .inr ⟨other, by rwa [kind?_place] at hkind⟩

theorem Descends.edit (h : store.Descends pairs) (edit : Edit) :
    (store.edit edit).Descends (pairs ++ store.givenPairs edit) := by
  cases edit with
  | push sound measure microTime =>
    rw [givenPairs, List.append_nil]
    exact h.push (.inl rfl)
  | copy id =>
    rw [givenPairs, List.append_nil, NoteStore.edit]
    cases hstored : store.get? id with
    | none => exact h
    | some note => exact h.push (.inr ⟨id, by rw [kind?, hstored, Option.map_some]⟩)
  | pushLong sound rule => exact h.pushLong sound rule
  | place id measure microTime =>
    rw [givenPairs, List.append_nil]
    exact h.place id measure microTime

theorem Descends.editAll (h : store.Descends pairs) (edits : List Edit) :
    (store.editAll edits).Descends (pairs ++ outcome givenPairs store edits) := by
  induction edits generalizing store pairs with
  | nil =>
    rw [outcome, List.append_nil]
    exact h
  | cons edit rest ih =>
    rw [outcome, ← List.append_assoc]
    exact ih (h.edit edit)

/-! ## From one end to the other, and on -/

/-- Whether an id was given out to an end of a long note. -/
def GivenEnd (pairs : List (NoteId × NoteId)) (id : NoteId) : Prop := ∃ pair ∈ pairs, id = pair.1 ∨ id = pair.2

theorem Descends.pairOf? (h : store.Descends pairs) {head tail : NoteId} (hmem : (head, tail) ∈ pairs) :
    store.pairOf? head = some tail ∧ store.pairOf? tail = some head := by
  obtain ⟨-, rule, hhead, htail⟩ := h.ends hmem
  exact ⟨pairOf?_eq_some_iff.2 ⟨rule, .inl hhead⟩, pairOf?_eq_some_iff.2 ⟨rule, .inr htail⟩⟩

/-- The two ends of a pair lead to each other. -/
theorem Descends.bind_pairOf?_of_givenEnd (h : store.Descends pairs) (hend : GivenEnd pairs id) :
    (store.pairOf? id).bind store.pairOf? = some id := by
  obtain ⟨⟨head, tail⟩, hmem, rfl | rfl⟩ := hend
  · rw [(h.pairOf? hmem).1]
    exact (h.pairOf? hmem).2
  · rw [(h.pairOf? hmem).2]
    exact (h.pairOf? hmem).1

/-- What a note names is the other end of a pair, that of the end it is or is a copy
of. -/
theorem Descends.exists_pair (h : store.Descends pairs) (hpair : store.pairOf? id = some other) :
    ∃ head tail rule, (head, tail) ∈ pairs ∧
      store.kind? head = some (.longHead tail rule) ∧ store.kind? tail = some (.longTail head rule) ∧
        (other = tail ∧ store.kind? id = some (.longHead tail rule) ∨
          other = head ∧ store.kind? id = some (.longTail head rule)) := by
  obtain ⟨rule, hkind | hkind⟩ := pairOf?_eq_some_iff.1 hpair
  all_goals
    rcases h.origin hkind with hnormal | ⟨head, tail, hmem, horigin⟩
    · cases hnormal
    obtain ⟨-, rule', hhead, htail⟩ := h.ends hmem
    rw [hhead, htail] at horigin
  · obtain hsame | hsame := horigin <;> cases hsame
    exact ⟨head, other, rule, hmem, hhead, htail, .inl ⟨rfl, hkind⟩⟩
  · obtain hsame | hsame := horigin <;> cases hsame
    exact ⟨other, tail, rule, hmem, hhead, htail, .inr ⟨rfl, hkind⟩⟩

theorem Descends.givenEnd_of_pairOf? (h : store.Descends pairs) (hpair : store.pairOf? id = some other) :
    GivenEnd pairs other := by
  obtain ⟨head, tail, rule, hmem, -, -, ⟨rfl, -⟩ | ⟨rfl, -⟩⟩ := h.exists_pair hpair
  · exact ⟨_, hmem, .inr rfl⟩
  · exact ⟨_, hmem, .inl rfl⟩

theorem Descends.opposite (h : store.Descends pairs) (hpair : store.pairOf? id = some other) :
    ∃ third rule, store.kind? id = some (.longHead other rule) ∧ store.kind? other = some (.longTail third rule) ∨
      store.kind? id = some (.longTail other rule) ∧ store.kind? other = some (.longHead third rule) := by
  obtain ⟨head, tail, rule, -, hhead, htail, ⟨rfl, hkind⟩ | ⟨rfl, hkind⟩⟩ := h.exists_pair hpair
  · exact ⟨head, rule, .inl ⟨hkind, htail⟩⟩
  · exact ⟨tail, rule, .inr ⟨hkind, hhead⟩⟩

/-! ## Runs -/

/-- What the notes of a store are to each other after edits that have given out the
ids `given`, those of `pairs` to the ends of long notes. -/
structure Traced (store : NoteStore) (given : List (NoteId × Note)) (pairs : List (NoteId × NoteId)) : Prop where
  dense : given.map Prod.fst = (List.range store.size).map NoteId.mk
  /-- An id stays that of the note it was given to, wherever the note is placed. -/
  stable : ∀ id note, (id, note) ∈ given →
    ∃ measure microTime, store.get? id = some (note.place measure microTime)
  paired : ∀ head tail, (head, tail) ∈ pairs →
    store.pairOf? head = some tail ∧ store.pairOf? tail = some head ∧ tail = ⟨head.index + 1⟩ ∧
      ∃ rule, store.kind? head = some (.longHead tail rule) ∧ store.kind? tail = some (.longTail head rule)
  opposite : ∀ id other, store.pairOf? id = some other → other.index < store.size ∧ ∃ third rule,
    store.kind? id = some (.longHead other rule) ∧ store.kind? other = some (.longTail third rule) ∨
      store.kind? id = some (.longTail other rule) ∧ store.kind? other = some (.longHead third rule)
  thrice : ∀ id, ((store.pairOf? id).bind store.pairOf?).bind store.pairOf? = store.pairOf? id
  twice : ∀ id, (store.pairOf? id).bind store.pairOf? = some id ↔ GivenEnd pairs id

/-- **Pairs outlast every run** of edits, copies of their ends among them. Ids count
the notes and stay with them. The ends of a long note lead to each other; a copy leads
to the end that its original leads to, and from there to the original. -/
theorem traced_editAll (edits : List Edit) :
    (({} : NoteStore).editAll edits).Traced (outcome given {} edits) (outcome givenPairs {} edits) := by
  have h := Descends.empty.editAll edits
  rw [List.nil_append] at h
  refine ⟨?dense, fun _ _ => get?_editAll_of_mem_given, ?paired, ?opposite, ?thrice, ?twice⟩
  case dense =>
    obtain ⟨hids, hsize⟩ := map_fst_outcome_given {} edits
    have hempty : ({} : NoteStore).size = 0 := rfl
    rw [hempty, Nat.zero_add] at hsize
    rw [hids, hsize, hempty, List.range_eq_range']
  case paired =>
    intro head tail hmem
    obtain ⟨hpair, hback⟩ := h.pairOf? hmem
    exact ⟨hpair, hback, h.ends hmem⟩
  case opposite =>
    intro id other hpair
    obtain ⟨third, rule, hkinds⟩ := h.opposite hpair
    refine ⟨?_, third, rule, hkinds⟩
    rcases hkinds with ⟨-, hother⟩ | ⟨-, hother⟩ <;> exact lt_size_of_kind? hother
  case thrice =>
    intro id
    cases hpair : (({} : NoteStore).editAll edits).pairOf? id with
    | none => rfl
    | some other => exact h.bind_pairOf?_of_givenEnd (h.givenEnd_of_pairOf? hpair)
  case twice =>
    intro id
    refine ⟨fun hback => ?_, h.bind_pairOf?_of_givenEnd⟩
    obtain ⟨other, -, hother⟩ := Option.bind_eq_some_iff.1 hback
    exact h.givenEnd_of_pairOf? hother

/-- The copy of a head names the tail, which names the head. -/
example :
    let store := ({} : NoteStore).editAll [.pushLong none .longNote, .copy ⟨0⟩]
    store.pairOf? ⟨2⟩ = some ⟨1⟩ ∧ store.pairOf? ⟨1⟩ = some ⟨0⟩ := by decide

end NoteStore

end ManiaChart
