/-
Charts that differ in the ids of their notes alone (`Chart.Renumbered`). Ids
count notes in the order they are stored, so what is stored in another order gets
other ids: notes of placements that are put in another order are the same up to a
renumbering (`Placement.exists_renumber_endsFrom`), which is made of exchanges of
neighbouring blocks of ids.
-/
import Mathlib.Algebra.Group.End
import ManiaChart.Chart.Basic
import ManiaChart.Proofs.Chart.Storing

namespace ManiaChart

/-! ## Other ids -/

def NoteKind.renumber (σ : Equiv.Perm NoteId) : NoteKind → NoteKind
  | normal => normal
  | longHead tail rule => longHead (σ tail) rule
  | longTail head rule => longTail (σ head) rule

def Note.renumber (σ : Equiv.Perm NoteId) (note : Note) : Note := { note with kind := note.kind.renumber σ }

def NoteEnd.renumber (σ : Equiv.Perm NoteId) (noteEnd : NoteEnd) : NoteEnd :=
  { noteEnd with id := σ noteEnd.id, kind := noteEnd.kind.renumber σ }

/-- Other ids for the notes on lanes. -/
def Timeline.renumber (σ : Equiv.Perm NoteId) (timeline : Timeline) : Timeline :=
  { timeline with cells := timeline.cells.map (Option.map σ) }

/-- Whether two charts are the same but for the ids of their notes. -/
structure Chart.Renumbered (σ : Equiv.Perm NoteId) (chart other : Chart) : Prop where
  header : other.header = chart.header
  identity : other.identity = chart.identity
  requestedRule : other.requestedRule = chart.requestedRule
  fromBeatmap : other.fromBeatmap = chart.fromBeatmap
  timelines : other.timelines = chart.timelines.map (Timeline.renumber σ)
  /-- Background notes keep their ids. -/
  sounds : ∀ timeline ∈ chart.timelines, ∀ id ∈ timeline.soundNotes, σ id = id
  notes : ∀ id, other.notes.get? (σ id) = (chart.notes.get? id).map (Note.renumber σ)

theorem NoteKind.renumber_mul (σ τ : Equiv.Perm NoteId) (kind : NoteKind) :
    kind.renumber (σ * τ) = (kind.renumber τ).renumber σ := by
  cases kind <;> rfl

theorem NoteEnd.renumber_mul (σ τ : Equiv.Perm NoteId) (noteEnd : NoteEnd) :
    noteEnd.renumber (σ * τ) = (noteEnd.renumber τ).renumber σ := by
  simp [renumber, NoteKind.renumber_mul]

theorem NoteEnd.noteOn_renumber (σ : Equiv.Perm NoteId) (noteEnd : NoteEnd) (timeline : Timeline) :
    (noteEnd.renumber σ).noteOn (timeline.renumber σ) = (noteEnd.noteOn timeline).renumber σ := rfl

theorem Timeline.note?_renumber (σ : Equiv.Perm NoteId) (timeline : Timeline) (lane : Nat) :
    (timeline.renumber σ).note? lane = (timeline.note? lane).map σ := by
  rw [note?, renumber, Array.getElem?_map, note?]
  cases timeline.cells[lane]? <;> rfl

/-! ## Neighbouring blocks -/

/-- Where an index goes when two neighbouring blocks, of `first` and of `second`
indices from `next` on, change places. -/
def exchanged (next first second index : Nat) : Nat :=
  if index < next then index
  else if index < next + first then index + second
  else if index < next + first + second then index - first
  else index

theorem exchanged_exchanged (next first second index : Nat) :
    exchanged next second first (exchanged next first second index) = index := by
  unfold exchanged
  split_ifs <;> omega

/-- The exchange of two neighbouring blocks of ids. -/
def NoteId.exchange (next first second : Nat) : Equiv.Perm NoteId where
  toFun id := ⟨exchanged next first second id.index⟩
  invFun id := ⟨exchanged next second first id.index⟩
  left_inv id := by simp only [exchanged_exchanged]
  right_inv id := by simp only [exchanged_exchanged]

namespace NoteId

variable {next first second : Nat}

theorem exchange_first {j : Nat} (hj : j < first) :
    exchange next first second ⟨next + j⟩ = ⟨next + second + j⟩ := by
  refine congrArg NoteId.mk ?_
  simp only [exchanged]
  split_ifs <;> omega

theorem exchange_second {j : Nat} (hj : j < second) :
    exchange next first second ⟨next + first + j⟩ = ⟨next + j⟩ := by
  refine congrArg NoteId.mk ?_
  simp only [exchanged]
  split_ifs <;> omega

theorem exchange_of_outside {id : NoteId} (h : id.index < next ∨ next + first + second ≤ id.index) :
    exchange next first second id = id := by
  refine congrArg NoteId.mk ?_
  simp only [exchanged]
  split_ifs <;> omega

end NoteId

namespace Placement

variable {rule : LongNoteRule} {σ : Equiv.Perm NoteId} {next next' : Nat}

/-- Notes whose ids are moved together are the notes stored from another id on. -/
theorem map_renumber_ends {placement : Placement}
    (h : ∀ j < placement.times.length, σ ⟨next + j⟩ = ⟨next' + j⟩) :
    (placement.ends rule next).map (NoteEnd.renumber σ) = placement.ends rule next' := by
  cases placement with
  | skipped => rfl
  | normal lane time =>
    have hid : σ ⟨next⟩ = ⟨next'⟩ := h 0 (Nat.zero_lt_one)
    simp [ends, NoteEnd.renumber, NoteKind.renumber, hid]
  | long lane head tail =>
    have hhead : σ ⟨next⟩ = ⟨next'⟩ := h 0 Nat.zero_lt_two
    have htail : σ ⟨next + 1⟩ = ⟨next' + 1⟩ := h 1 Nat.one_lt_two
    simp [ends, NoteEnd.renumber, NoteKind.renumber, hhead, htail]

theorem length_endsFrom_cons (rule : LongNoteRule) (next : Nat) (placement : Placement) (rest : List Placement) :
    (endsFrom rule next (placement :: rest)).length =
      placement.times.length + (endsFrom rule (next + placement.times.length) rest).length := by
  rw [endsFrom, List.length_append, length_ends]

theorem map_renumber_endsFrom {placements : List Placement}
    (h : ∀ j < (endsFrom rule next placements).length, σ ⟨next + j⟩ = ⟨next' + j⟩) :
    (endsFrom rule next placements).map (NoteEnd.renumber σ) = endsFrom rule next' placements := by
  induction placements generalizing next next' with
  | nil => rfl
  | cons placement rest ih =>
    rw [length_endsFrom_cons] at h
    rw [endsFrom, List.map_append, map_renumber_ends fun j hj => h j (by omega), endsFrom, ih fun j hj => ?_]
    rw [Nat.add_assoc, Nat.add_assoc]
    exact h _ (by omega)

/-- **Placements in another order** store the same notes under other ids. -/
theorem exists_renumber_endsFrom {placements others : List Placement} (h : placements.Perm others)
    (rule : LongNoteRule) (next : Nat) :
    ∃ σ : Equiv.Perm NoteId,
      (∀ id, id.index < next ∨ next + (endsFrom rule next placements).length ≤ id.index → σ id = id) ∧
        ((endsFrom rule next placements).map (NoteEnd.renumber σ)).Perm (endsFrom rule next others) := by
  induction h generalizing next with
  | nil => exact ⟨1, fun id _ => rfl, .rfl⟩
  | cons placement hperm ih =>
    obtain ⟨σ, hfixed, hends⟩ := ih (next + placement.times.length)
    refine ⟨σ, fun id hid => hfixed id ?_, ?_⟩
    · rw [length_endsFrom_cons] at hid
      omega
    · rw [endsFrom, List.map_append, map_renumber_ends fun j hj => hfixed _ (.inl ?_), endsFrom]
      · exact hends.append_left _
      · show next + j < _
        omega
  | swap first second rest =>
    -- The ids of the two placements change places.
    let σ := NoteId.exchange next second.times.length first.times.length
    have hsecond : (second.ends rule next).map (NoteEnd.renumber σ) =
        second.ends rule (next + first.times.length) :=
      map_renumber_ends fun j hj => NoteId.exchange_first hj
    have hfirst : (first.ends rule (next + second.times.length)).map (NoteEnd.renumber σ) =
        first.ends rule next :=
      map_renumber_ends fun j hj => NoteId.exchange_second hj
    have hrest : (endsFrom rule (next + second.times.length + first.times.length) rest).map (NoteEnd.renumber σ) =
        endsFrom rule (next + first.times.length + second.times.length) rest :=
      map_renumber_endsFrom fun j hj => by
        rw [Nat.add_right_comm next, NoteId.exchange_of_outside (.inr (by simp only; omega))]
    refine ⟨σ, fun id hid => NoteId.exchange_of_outside ?_, ?_⟩
    · rw [length_endsFrom_cons, length_endsFrom_cons] at hid
      omega
    · simp only [endsFrom, List.map_append, hsecond, hfirst, hrest]
      exact List.perm_append_comm_assoc ..
  | trans hfirst hsecond ihfirst ihsecond =>
    obtain ⟨σ, hσ, hperm⟩ := ihfirst next
    obtain ⟨τ, hτ, hperm'⟩ := ihsecond next
    have hcomp : NoteEnd.renumber (τ * σ) = NoteEnd.renumber τ ∘ NoteEnd.renumber σ :=
      funext (NoteEnd.renumber_mul τ σ)
    refine ⟨τ * σ, fun id hid => ?_, ?_⟩
    · have hlength := hperm.length_eq
      rw [List.length_map] at hlength
      rw [Equiv.Perm.mul_apply, hσ id hid, hτ id (hlength ▸ hid)]
    · rw [hcomp, ← List.map_map]
      exact (hperm.map _).trans hperm'

end Placement

end ManiaChart
