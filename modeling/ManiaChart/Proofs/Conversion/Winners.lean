/-
Which note a cell ends up with. Hit objects may have notes on the same cell, in
any order of time; the last of them in the file wins it (`Plan.Wins`), since a
placement puts its notes on its own cells and changes no other one
(`Draft.note?_place`). The notes to hit are therefore the cells whose winner is
not the tail of a long note, and they may be counted lane by lane.
-/
import ManiaChart.Proofs.Chart.Counting
import ManiaChart.Proofs.Conversion.LongNotes
import ManiaChart.Proofs.Conversion.SoundNotes

namespace ManiaChart

/-! ## Placements and the cells they leave alone -/

theorem Draft.note?_place {draft : Draft} {rule : LongNoteRule} {placement : Placement} {t : Int}
    {lane : Nat} (h : (t, lane) ∉ placement.cells) :
    ((draft.place rule placement).timelineAt t).note? lane = (draft.timelineAt t).note? lane := by
  have hset : ∀ (timeline : Timeline) (time : Int) (other : Nat) (id : NoteId), (t, lane) ≠ (time, other) →
      t = time → (timeline.setNote other id).note? lane = timeline.note? lane := by
    intro timeline time other id hcell htime
    have hlane : other ≠ lane := fun heq => hcell (by rw [htime, heq])
    simp [Timeline.note?, Timeline.setNote, hlane]
  have hput : ∀ (noteEnd : NoteEnd) (timeline : Timeline), noteEnd.cell ≠ (t, lane) →
      (draft.putEnd t timeline noteEnd).note? lane = timeline.note? lane := by
    intro noteEnd timeline hcell
    unfold putEnd
    split
    next htime =>
      rw [hset _ noteEnd.time noteEnd.lane noteEnd.id (Ne.symm hcell) htime, Timeline.note?, cells_retimed,
        Timeline.note?]
    next => rfl
  by_cases hfits : placement.Fits draft.laneCount
  · rw [timelineAt_place t hfits]
    rw [← Placement.map_cell_ends rule draft.notes.size] at h
    generalize placement.ends rule draft.notes.size = ends at h
    generalize draft.timelineAt t = timeline
    induction ends generalizing timeline with
    | nil => rfl
    | cons noteEnd rest ih =>
      rw [List.map_cons, List.mem_cons, not_or] at h
      rw [List.foldl_cons, ih h.2, hput noteEnd timeline (Ne.symm h.1)]
  · -- A lane that does not exist takes nothing.
    cases placement with
    | skipped => exact absurd trivial hfits
    | normal other time =>
      have hlane : ¬other < draft.laneCount := hfits
      simp [place, placeNote?, hlane]
    | long other head tail =>
      have hlane : ¬other < draft.laneCount := hfits
      simp [place, placeLong?, hlane]

/-! ## The notes of hit objects, one after another -/

/-- What hit objects become, those left out apart. -/
def Placement.ofObjects (layout : LaneLayout) (objects : List HitObject) : List Placement :=
  (objects.map (ofObject layout Plan.alignmentOffset)).filterMap Except.toOption

namespace HitObject

/-- The notes that a hit object puts on lanes, stored from the id `next` on. -/
def ends (layout : LaneLayout) (rule : LongNoteRule) (next : Nat) (object : HitObject) : List NoteEnd :=
  match Placement.ofObject layout Plan.alignmentOffset object with
  | .ok placement => placement.ends rule next
  | .error _ => []

/-- The cells that a hit object puts notes on. -/
def cells (layout : LaneLayout) (object : HitObject) : List (Int × Nat) :=
  match Placement.ofObject layout Plan.alignmentOffset object with
  | .ok placement => placement.cells
  | .error _ => []

theorem map_cell_ends (layout : LaneLayout) (rule : LongNoteRule) (next : Nat) (object : HitObject) :
    (object.ends layout rule next).map NoteEnd.cell = object.cells layout := by
  unfold ends cells
  cases Placement.ofObject layout Plan.alignmentOffset object with
  | error omission => rfl
  | ok placement => exact Placement.map_cell_ends rule next placement

theorem lastEnd?_ends {layout : LaneLayout} {rule : LongNoteRule} {next : Nat} {object : HitObject}
    {noteEnd : NoteEnd} (h : noteEnd ∈ object.ends layout rule next) :
    lastEnd? (object.ends layout rule next) noteEnd.cell = some noteEnd := by
  unfold ends at h ⊢
  cases hobject : Placement.ofObject layout Plan.alignmentOffset object with
  | error omission =>
    rw [hobject] at h
    cases h
  | ok placement =>
    rw [hobject] at h
    exact Placement.lastEnd?_ends hobject h

/-- Of the notes of hit objects those of the first one are stored first. -/
theorem endsFrom_cons (layout : LaneLayout) (rule : LongNoteRule) (next : Nat) (object : HitObject)
    (rest : List HitObject) :
    Placement.endsFrom rule next (Placement.ofObjects layout (object :: rest)) =
      object.ends layout rule next ++
        Placement.endsFrom rule (next + (object.cells layout).length) (Placement.ofObjects layout rest) := by
  rw [← map_cell_ends layout rule next, List.length_map, Placement.ofObjects, List.map_cons,
    List.filterMap_cons, ← Placement.ofObjects, ends]
  cases Placement.ofObject layout Plan.alignmentOffset object with
  | error omission => rfl
  | ok placement => simp only [Except.toOption, Placement.endsFrom, Placement.length_ends]

/-- The cells of the notes of hit objects, in order. -/
theorem map_cell_endsFrom (layout : LaneLayout) (rule : LongNoteRule) (next : Nat) (objects : List HitObject) :
    (Placement.endsFrom rule next (Placement.ofObjects layout objects)).map NoteEnd.cell =
      objects.flatMap (cells layout) := by
  induction objects generalizing next with
  | nil => rfl
  | cons object rest ih => rw [endsFrom_cons, List.map_append, map_cell_ends, ih, List.flatMap_cons]

theorem lastEnd?_endsFrom_eq_none_iff {layout : LaneLayout} {rule : LongNoteRule} {next : Nat}
    {objects : List HitObject} {cell : Int × Nat} :
    lastEnd? (Placement.endsFrom rule next (Placement.ofObjects layout objects)) cell = none ↔
      ∀ object ∈ objects, cell ∉ object.cells layout := by
  have hcells : lastEnd? (Placement.endsFrom rule next (Placement.ofObjects layout objects)) cell = none ↔
      cell ∉ objects.flatMap (cells layout) := by
    rw [← map_cell_endsFrom layout rule next, lastEnd?_eq_none_iff]
    simp
  rw [hcells, List.mem_flatMap]
  simp

/-- Whether a note is the one that the last of the hit objects with a note on a
cell puts there; the notes of hit objects are stored from the id `next` on. -/
def WinsFrom (layout : LaneLayout) (rule : LongNoteRule) (next : Nat) (objects : List HitObject)
    (cell : Int × Nat) (noteEnd : NoteEnd) : Prop :=
  ∃ before object after, objects = before ++ object :: after ∧
    noteEnd ∈ object.ends layout rule (next + (before.flatMap (cells layout)).length) ∧
    noteEnd.cell = cell ∧ ∀ later ∈ after, cell ∉ later.cells layout

/-- The last note put on a cell is the one that wins it. -/
theorem winsFrom_iff {layout : LaneLayout} {rule : LongNoteRule} {next : Nat} {objects : List HitObject}
    {cell : Int × Nat} {noteEnd : NoteEnd} :
    WinsFrom layout rule next objects cell noteEnd ↔
      lastEnd? (Placement.endsFrom rule next (Placement.ofObjects layout objects)) cell = some noteEnd := by
  refine ⟨?_, fun h => ?_⟩
  · rintro ⟨before, object, after, rfl, hmem, rfl, hafter⟩
    induction before generalizing next with
    | nil =>
      have hnone : lastEnd? (Placement.endsFrom rule (next + (object.cells layout).length)
          (Placement.ofObjects layout after)) noteEnd.cell = none := lastEnd?_endsFrom_eq_none_iff.2 hafter
      rw [List.nil_append, endsFrom_cons, lastEnd?_append, hnone, Option.none_or]
      exact lastEnd?_ends hmem
    | cons first rest ih =>
      rw [List.flatMap_cons, List.length_append, ← Nat.add_assoc] at hmem
      rw [List.cons_append, endsFrom_cons, lastEnd?_append, ih hmem, Option.some_or]
  · induction objects generalizing next with
    | nil => cases h
    | cons object rest ih =>
      rw [endsFrom_cons, lastEnd?_append] at h
      cases hrest : lastEnd? (Placement.endsFrom rule (next + (object.cells layout).length)
          (Placement.ofObjects layout rest)) cell with
      | some other =>
        rw [hrest, Option.some_or] at h
        cases h
        obtain ⟨before, winner, after, rfl, hmem, hcell, hafter⟩ := ih hrest
        refine ⟨object :: before, winner, after, rfl, ?_, hcell, hafter⟩
        rwa [List.flatMap_cons, List.length_append, ← Nat.add_assoc]
      | none =>
        rw [hrest, Option.none_or] at h
        obtain ⟨hmem, hcell⟩ := mem_of_lastEnd? h
        exact ⟨[], object, rest, rfl, hmem, hcell, lastEnd?_endsFrom_eq_none_iff.1 hrest⟩

end HitObject

/-! ## The cells of a chart -/

namespace Plan

variable {plan : Plan} {beatmap : Beatmap} {identity : Chart.Identity} {rule : LongNoteRule}

/-- Whether a note wins a cell. The background notes are stored before those of
the hit objects. -/
def Wins (plan : Plan) (rule : LongNoteRule) (cell : Int × Nat) (noteEnd : NoteEnd) : Prop :=
  HitObject.WinsFrom plan.layout rule plan.sounds.length plan.beatmap.hitObjects.toList cell noteEnd

theorem wins_iff {cell : Int × Nat} {noteEnd : NoteEnd} :
    plan.Wins rule cell noteEnd ↔ lastEnd? (plan.ends rule) cell = some noteEnd := by
  rw [Wins, HitObject.winsFrom_iff, ends, size_laid]
  rfl

theorem exists_wins_iff {cell : Int × Nat} :
    (∃ noteEnd, plan.Wins rule cell noteEnd) ↔
      ∃ object ∈ plan.beatmap.hitObjects, cell ∈ object.cells plan.layout := by
  have hnone : lastEnd? (plan.ends rule) cell = none ↔
      ∀ object ∈ plan.beatmap.hitObjects.toList, cell ∉ object.cells plan.layout :=
    HitObject.lastEnd?_endsFrom_eq_none_iff
  simp only [wins_iff, ← Option.isSome_iff_exists, Option.isSome_iff_ne_none, ne_eq, hnone, Array.mem_toList_iff]
  simp

/-- What the cells of a chart hold, and how many notes that makes to hit. -/
structure CellLaw (plan : Plan) (rule : LongNoteRule) (chart : Chart) : Prop where
  /-- A lane holds at a millisecond the note that wins the cell, and none where
  no note does. -/
  held : ∀ t lane id, (∃ timeline ∈ chart.timelines, timeline.milliTime = t ∧ timeline.note? lane = some id) ↔
    ∃ noteEnd, plan.Wins rule (t, lane) noteEnd ∧ noteEnd.id = id
  /-- The winner is stored as what its hit object put there. -/
  stored : ∀ cell noteEnd, plan.Wins rule cell noteEnd →
    (chart.notes.get? noteEnd.id).map Note.kind = some noteEnd.kind
  /-- A cell is won when some hit object has a note there. -/
  won : ∀ cell, (∃ noteEnd, plan.Wins rule cell noteEnd) ↔
    ∃ object ∈ plan.beatmap.hitObjects, cell ∈ object.cells plan.layout
  /-- The notes to hit are the cells won by a note hit once or by a head. -/
  total : ∃ hits : Finset (Int × Nat),
    (∀ cell, cell ∈ hits ↔ ∃ noteEnd, plan.Wins rule cell noteEnd ∧
      ∀ head r, noteEnd.kind ≠ .longTail head r) ∧
    chart.totalNotes = hits.card
  byLanes : chart.totalNotes = ∑ lane ∈ Finset.range chart.header.mode.laneCount,
    (chart.laneNotes lane).countP fun note => !note.isLongTail

theorem held_iff (h : plan.IsFor beatmap) {t : Int} {lane : Nat} {id : NoteId} :
    (∃ timeline ∈ (plan.chart identity rule).timelines, timeline.milliTime = t ∧
        timeline.note? lane = some id) ↔
      ∃ noteEnd, plan.Wins rule (t, lane) noteEnd ∧ noteEnd.id = id := by
  refine ⟨?_, ?_⟩
  · rintro ⟨timeline, hmem, rfl, hnote⟩
    obtain ⟨t, -, rfl⟩ := mem_timelines.1 hmem
    rw [note?_draft h] at hnote
    obtain ⟨noteEnd, hlast, hid⟩ := Option.map_eq_some_iff.1 hnote
    rw [(shows_draft h rule t).milliTime]
    exact ⟨noteEnd, wins_iff.2 hlast, hid⟩
  · rintro ⟨noteEnd, hwins, rfl⟩
    have hlast := wins_iff.1 hwins
    obtain ⟨before, placement, after, hsplit, hmem, hcell, -⟩ := Placement.takenBy_of_lastEnd? hlast
    obtain ⟨rfl, rfl⟩ := Prod.mk.inj hcell
    have hhas := has_of_placed h (hsplit ▸ List.mem_append_right _ List.mem_cons_self) hmem
    refine ⟨_, mem_timelines.2 ⟨_, hhas, rfl⟩, (shows_draft h rule _).milliTime, ?_⟩
    rw [note?_draft h, hlast, Option.map_some]

theorem counts_of_wins (h : plan.IsFor beatmap) {cell : Int × Nat} {noteEnd : NoteEnd}
    (hwins : plan.Wins rule cell noteEnd) :
    (plan.chart identity rule).notes.counts noteEnd.id = true ↔ ∀ head r, noteEnd.kind ≠ .longTail head r := by
  have hnote := get?_of_mem_ends h (mem_of_lastEnd? (wins_iff.1 hwins)).1
  have hchart : (plan.chart identity rule).notes = (plan.draft rule).notes := rfl
  rw [NoteStore.counts, hchart, hnote, Option.any_some, Note.isLongTail, NoteEnd.noteOn]
  cases noteEnd.kind <;> simp

theorem cellLaw_chart (h : plan.IsFor beatmap) (identity : Chart.Identity) (rule : LongNoteRule) :
    plan.CellLaw rule (plan.chart identity rule) where
  held _ _ _ := held_iff h
  stored _ _ hwins := kind_of_mem_ends h (mem_of_lastEnd? (wins_iff.1 hwins)).1
  won _ := exists_wins_iff
  total := by
    refine ⟨(plan.chart identity rule).hits.toFinset, fun cell => ?_, ?_⟩
    · obtain ⟨t, lane⟩ := cell
      rw [List.mem_toFinset, Chart.mem_hits]
      refine ⟨?_, ?_⟩
      · rintro ⟨timeline, hmem, htime, id, hid, hcounts⟩
        obtain ⟨noteEnd, hwins, rfl⟩ := (held_iff h).1 ⟨timeline, hmem, htime, hid⟩
        exact ⟨noteEnd, hwins, (counts_of_wins h hwins).1 hcounts⟩
      · rintro ⟨noteEnd, hwins, hkind⟩
        obtain ⟨timeline, hmem, htime, hid⟩ := (held_iff h).2 ⟨noteEnd, hwins, rfl⟩
        exact ⟨timeline, hmem, htime, _, hid, (counts_of_wins h hwins).2 hkind⟩
    · rw [List.toFinset_card_of_nodup (Chart.nodup_hits (timelines_ascending h identity rule)),
        Chart.totalNotes_eq_length_hits]
  byLanes := by
    refine Chart.totalNotes_eq_sum fun timeline hmem => ?_
    obtain ⟨t, -, rfl⟩ := mem_timelines.1 hmem
    exact laneCount_draft h rule t

end Plan

/-- **The cells of a converted chart.** Each cell holds the note that the last
hit object of the file with a note there puts on it, and nothing where no hit
object has one; a placement changes no cell but its own. The notes to hit are the
cells won by a note hit once or by a head, and may be counted lane by lane. -/
theorem Beatmap.convert_cells {beatmap : Beatmap} {identity : Chart.Identity} {rule : LongNoteRule}
    {converted : Converted} (h : beatmap.convert identity rule = .ok converted) :
    (∃ plan : Plan, plan.IsFor beatmap ∧ plan.CellLaw rule converted.chart) ∧
      ∀ (draft : Draft) (placement : Placement) (t : Int) (lane : Nat), (t, lane) ∉ placement.cells →
        ((draft.place rule placement).timelineAt t).note? lane = (draft.timelineAt t).note? lane := by
  obtain ⟨plan, hplan, rfl⟩ := convert_eq_ok_iff.1 h
  exact ⟨⟨plan, hplan, Plan.cellLaw_chart hplan identity rule⟩, fun draft placement t lane => Draft.note?_place⟩

/-- The note hit where the hold note ends wins the cell of the tail, so two notes
are hit: the head and the later note. -/
theorem Beatmap.convert_cells_touching :
    ∃ converted, Beatmap.touching.convert ⟨"", "", ""⟩ .longNote = .ok converted ∧
      converted.chart.totalNotes = 2 ∧
      (∃ plan : Plan, plan.IsFor Beatmap.touching ∧ plan.CellLaw .longNote converted.chart) ∧
        ∀ (draft : Draft) (placement : Placement) (t : Int) (lane : Nat), (t, lane) ∉ placement.cells →
          ((draft.place .longNote placement).timelineAt t).note? lane = (draft.timelineAt t).note? lane := by
  obtain ⟨converted, h, htotal⟩ := exists_convert touching ⟨"", "", ""⟩ .longNote
    (fun converted => converted.chart.totalNotes = 2) (by decide +kernel)
  exact ⟨converted, h, by simpa using htotal, convert_cells h⟩

end ManiaChart
