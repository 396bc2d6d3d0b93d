/-
The cells of a chart: a lane at a millisecond. Nothing but a note put on a cell
changes what it holds, and it then holds that note, so a cell of a converted
chart holds the last of the notes that hit objects put on it, in the order of
the file (`Plan.note?_draft`).
-/
import ManiaChart.Proofs.Chart.Storing
import ManiaChart.Proofs.Conversion.LastWriter

namespace ManiaChart

/-! ## The notes put on a cell -/

/-- The cell that a note is put on. -/
def NoteEnd.cell (noteEnd : NoteEnd) : Int × Nat := (noteEnd.time, noteEnd.lane)

/-- The last of the notes put on a cell. -/
def lastEnd? (ends : List NoteEnd) (cell : Int × Nat) : Option NoteEnd :=
  (ends.filter (·.cell = cell)).getLast?

theorem lastEnd?_append (ends more : List NoteEnd) (cell : Int × Nat) :
    lastEnd? (ends ++ more) cell = (lastEnd? more cell).or (lastEnd? ends cell) := by
  rw [lastEnd?, List.filter_append, List.getLast?_append, lastEnd?, lastEnd?]

theorem lastEnd?_cons (noteEnd : NoteEnd) (rest : List NoteEnd) (cell : Int × Nat) :
    lastEnd? (noteEnd :: rest) cell =
      (lastEnd? rest cell).or (if noteEnd.cell = cell then some noteEnd else none) := by
  rw [← List.singleton_append, lastEnd?_append]
  congr 1
  by_cases h : noteEnd.cell = cell <;> simp [lastEnd?, h]

theorem lastEnd?_eq_none_iff {ends : List NoteEnd} {cell : Int × Nat} :
    lastEnd? ends cell = none ↔ ∀ noteEnd ∈ ends, noteEnd.cell ≠ cell := by
  simp [lastEnd?]

theorem mem_of_lastEnd? {ends : List NoteEnd} {cell : Int × Nat} {noteEnd : NoteEnd}
    (h : lastEnd? ends cell = some noteEnd) : noteEnd ∈ ends ∧ noteEnd.cell = cell := by
  simpa using List.mem_filter.1 (List.mem_of_getLast? h)

namespace Placement

/-- The cells of a placement. -/
def cells : Placement → List (Int × Nat)
  | skipped => []
  | normal lane time => [(time, lane)]
  | long lane head tail => [(head, lane), (tail, lane)]

theorem map_cell_ends (rule : LongNoteRule) (next : Nat) (placement : Placement) :
    (placement.ends rule next).map NoteEnd.cell = placement.cells := by
  cases placement <;> rfl

theorem lane_lt_of_mem_ends {rule : LongNoteRule} {next lanes : Nat} {placement : Placement}
    (h : placement.Fits lanes) : ∀ noteEnd ∈ placement.ends rule next, noteEnd.lane < lanes := by
  intro noteEnd hmem
  cases placement with
  | skipped => cases hmem
  | normal lane time =>
    obtain rfl := List.mem_singleton.1 hmem
    exact h
  | long lane head tail =>
    simp only [ends, List.mem_cons, List.not_mem_nil, or_false] at hmem
    rcases hmem with rfl | rfl <;> exact h

end Placement

/-! ## What drawing does to a cell -/

namespace Draft

/-- Every timeline has the lanes of the draft. -/
def Laned (draft : Draft) : Prop := ∀ t, (draft.timelineAt t).laneCount = draft.laneCount

theorem cells_retimed (draft : Draft) (t : Int) (timeline : Timeline) :
    (draft.retimed t timeline).cells = timeline.cells := by
  simp only [retimed]

theorem laneCount_foldl_putEnd (draft : Draft) (t : Int) (ends : List NoteEnd)
    (timeline : Timeline) : (ends.foldl (draft.putEnd t) timeline).laneCount = timeline.laneCount :=
  foldl_putEnd Timeline.laneCount (fun other lane id => by
    simp only [retimed, Timeline.setNote, Timeline.laneCount, Array.size_setIfInBounds]) ends timeline

theorem note?_putEnd {draft : Draft} {t : Int} {timeline : Timeline} {noteEnd : NoteEnd}
    (h : noteEnd.lane < timeline.laneCount) (lane : Nat) :
    (draft.putEnd t timeline noteEnd).note? lane =
      if noteEnd.cell = (t, lane) then some noteEnd.id else timeline.note? lane := by
  rw [putEnd]
  by_cases ht : t = noteEnd.time
  · have hlane : noteEnd.lane < (draft.retimed t timeline).laneCount := by
      rwa [Timeline.laneCount, cells_retimed]
    rw [if_pos ht, Timeline.note?_setNote _ _ _ _ hlane, Timeline.note?, cells_retimed, ← Timeline.note?]
    simp only [NoteEnd.cell, ht, Prod.mk.injEq, true_and, eq_comm]
  · rw [if_neg ht, if_neg fun hcell => ht (congrArg Prod.fst hcell).symm]

theorem note?_foldl_putEnd {draft : Draft} {t : Int} {ends : List NoteEnd} {timeline : Timeline}
    (h : ∀ noteEnd ∈ ends, noteEnd.lane < timeline.laneCount) (lane : Nat) :
    (ends.foldl (draft.putEnd t) timeline).note? lane =
      ((lastEnd? ends (t, lane)).map NoteEnd.id).or (timeline.note? lane) := by
  induction ends generalizing timeline with
  | nil => rfl
  | cons noteEnd rest ih =>
    have hlane : noteEnd.lane < timeline.laneCount := h noteEnd (by simp)
    have hput : (draft.putEnd t timeline noteEnd).laneCount = timeline.laneCount :=
      draft.laneCount_foldl_putEnd t [noteEnd] timeline
    rw [List.foldl_cons, ih fun other hmem => hput ▸ h other (by simp [hmem]), lastEnd?_cons, note?_putEnd hlane]
    cases lastEnd? rest (t, lane) with
    | some other => rfl
    | none => split <;> rfl

end Draft

namespace Stroke

variable {rule : LongNoteRule} {draft : Draft}

theorem laneCount_change (rule : LongNoteRule) (draft : Draft) (t : Int) (stroke : Stroke)
    (timeline : Timeline) :
    (stroke.change rule draft t timeline).laneCount = timeline.laneCount := by
  cases stroke with
  | notes placement => exact draft.laneCount_foldl_putEnd t _ timeline
  | sound time | refresh time | image time | speed time | measureLine line =>
    simp only [change]
    split <;> simp only [Draft.retimed, Timeline.addSoundNote, Timeline.laneCount]

theorem cells_change {stroke : Stroke} (h : ∀ placement, stroke ≠ notes placement)
    (rule : LongNoteRule) (draft : Draft) (t : Int) (timeline : Timeline) :
    (stroke.change rule draft t timeline).cells = timeline.cells := by
  cases stroke with
  | notes placement => exact absurd rfl (h placement)
  | sound time | refresh time | image time | speed time | measureLine line =>
    simp only [change]
    split <;> simp only [Draft.retimed, Timeline.addSoundNote]

theorem laned_draw {stroke : Stroke} (hlaned : draft.Laned) (h : stroke.Fits draft.laneCount) :
    (stroke.draw rule draft).Laned := by
  intro t
  rw [timelineAt_draw t h, laneCount_change, laneCount_draw]
  exact hlaned t

theorem laned_drawAll {strokes : List Stroke} (hlaned : draft.Laned)
    (h : ∀ stroke ∈ strokes, stroke.Fits draft.laneCount) : (drawAll rule draft strokes).Laned := by
  intro t
  rw [kept_drawAll Timeline.laneCount
      (fun draft stroke _ timeline => stroke.laneCount_change rule draft t timeline) h,
    laneCount_drawAll]
  exact hlaned t

/-- Placements leave on a cell the last of their notes put there. -/
theorem note?_drawAll_notes {placements : List Placement} (hlaned : draft.Laned)
    (h : ∀ placement ∈ placements, placement.Fits draft.laneCount) (t : Int) (lane : Nat) :
    ((drawAll rule draft (placements.map notes)).timelineAt t).note? lane =
      ((lastEnd? (Placement.endsFrom rule draft.notes.size placements) (t, lane)).map NoteEnd.id).or
        ((draft.timelineAt t).note? lane) := by
  induction placements generalizing draft with
  | nil => rfl
  | cons placement rest ih =>
    have hplacement : (notes placement).Fits draft.laneCount := h placement (by simp)
    have hrest : ∀ other ∈ rest, other.Fits (draft.place rule placement).laneCount := fun other hmem => by
      rw [Draft.laneCount_place]
      exact h other (by simp [hmem])
    have hlanes : ∀ noteEnd ∈ placement.ends rule draft.notes.size,
        noteEnd.lane < (draft.timelineAt t).laneCount := by
      rw [hlaned t]
      exact Placement.lane_lt_of_mem_ends hplacement
    have hplaced : (draft.place rule placement).Laned := laned_draw hlaned hplacement
    show ((drawAll rule (draft.place rule placement) (rest.map notes)).timelineAt t).note? lane = _
    rw [ih hplaced hrest, Draft.size_place hplacement, Draft.timelineAt_place t hplacement,
      Draft.note?_foldl_putEnd hlanes, Placement.endsFrom, lastEnd?_append]
    cases lastEnd? (Placement.endsFrom rule (draft.notes.size + placement.times.length) rest) (t, lane) <;> rfl

end Stroke

/-! ## The cells of a plan -/

namespace Plan

variable {plan : Plan} {beatmap : Beatmap} {rule : LongNoteRule}

/-- The draft before the first hit object. -/
def laid (plan : Plan) (rule : LongNoteRule) : Draft :=
  Stroke.drawAll rule plan.blank (plan.opening ++ plan.measureLines.map Stroke.measureLine)

/-- The notes of the hit objects, in the order of the file. -/
def ends (plan : Plan) (rule : LongNoteRule) : List NoteEnd :=
  Placement.endsFrom rule (plan.laid rule).notes.size plan.placed

theorem draft_eq (plan : Plan) (rule : LongNoteRule) :
    plan.draft rule = Stroke.drawAll rule (plan.laid rule) (plan.placed.map Stroke.notes) := by
  rw [laid, ← Stroke.drawAll_append, ← strokes_eq]
  rfl

theorem laneCount_laid (plan : Plan) (rule : LongNoteRule) :
    (plan.laid rule).laneCount = plan.layout.mode.laneCount :=
  Stroke.laneCount_drawAll ..

theorem laned_blank (plan : Plan) : plan.blank.Laned := by
  intro t
  rw [timelineAt_blank, Timeline.laneCount, Draft.seed, Array.size_replicate]

theorem laneCount_draft (h : plan.IsFor beatmap) (rule : LongNoteRule) (t : Int) :
    ((plan.draft rule).timelineAt t).laneCount = plan.layout.mode.laneCount := by
  have hlaned : (Stroke.drawAll rule plan.blank plan.strokes).Laned :=
    Stroke.laned_drawAll plan.laned_blank (strokes_fit h)
  exact (hlaned t).trans (Stroke.laneCount_drawAll ..)

theorem laid_fits (h : plan.IsFor beatmap) :
    ∀ stroke ∈ plan.opening ++ plan.measureLines.map Stroke.measureLine,
      stroke.Fits plan.layout.mode.laneCount :=
  fun stroke hmem => strokes_fit h stroke (List.mem_append_left _ hmem)

theorem laned_laid (h : plan.IsFor beatmap) (rule : LongNoteRule) : (plan.laid rule).Laned :=
  Stroke.laned_drawAll plan.laned_blank (laid_fits h)

theorem note?_laid (h : plan.IsFor beatmap) (rule : LongNoteRule) (t : Int) (lane : Nat) :
    ((plan.laid rule).timelineAt t).note? lane = none := by
  have hkept : ∀ stroke ∈ plan.opening ++ plan.measureLines.map Stroke.measureLine,
      ∀ (draft : Draft) timeline, (stroke.change rule draft t timeline).cells = timeline.cells :=
      fun stroke hmem draft timeline => by
    rcases List.mem_append.1 hmem with hmem | hmem
    · exact Stroke.cells_change (fun placement => by rintro rfl; exact opens_of_mem hmem) ..
    · obtain ⟨line, -, rfl⟩ := List.mem_map.1 hmem
      exact Stroke.cells_change (fun placement => by rintro ⟨⟩) ..
  have hcells : ((plan.laid rule).timelineAt t).cells = (plan.blank.timelineAt t).cells :=
    Stroke.kept_drawAll Timeline.cells
      (fun draft stroke hmem timeline => hkept stroke hmem draft timeline) (laid_fits h)
  rw [Timeline.note?, hcells, timelineAt_blank, Draft.seed]
  simp only [Array.getElem?_replicate]
  split <;> rfl

theorem placed_fits (h : plan.IsFor beatmap) (rule : LongNoteRule) :
    ∀ placement ∈ plan.placed, placement.Fits (plan.laid rule).laneCount := by
  intro placement hmem
  rw [laneCount_laid]
  exact fits_of_mem_placed h hmem

/-- **The cell law.** A cell holds the last of the notes that hit objects put on
it. -/
theorem note?_draft (h : plan.IsFor beatmap) (rule : LongNoteRule) (t : Int) (lane : Nat) :
    ((plan.draft rule).timelineAt t).note? lane = (lastEnd? (plan.ends rule) (t, lane)).map NoteEnd.id := by
  rw [draft_eq, Stroke.note?_drawAll_notes (laned_laid h rule) (placed_fits h rule), note?_laid h, Option.or_none]
  rfl

/-- A note that a hit object put on a lane is stored under its id, and stands
where the timeline does. -/
theorem get?_of_mem_ends (h : plan.IsFor beatmap) {noteEnd : NoteEnd}
    (hmem : noteEnd ∈ plan.ends rule) :
    (plan.draft rule).notes.get? noteEnd.id =
      some (noteEnd.noteOn ((plan.draft rule).timelineAt noteEnd.time)) := by
  rw [draft_eq, Stroke.get?_of_mem_endsFrom (placed_fits h rule) hmem,
    Stroke.noteOn_drawAll_notes (placed_fits h rule)]

theorem kind_of_mem_ends (h : plan.IsFor beatmap) {noteEnd : NoteEnd}
    (hmem : noteEnd ∈ plan.ends rule) :
    ((plan.draft rule).notes.get? noteEnd.id).map Note.kind = some noteEnd.kind := by
  rw [get?_of_mem_ends h hmem]
  rfl

end Plan

end ManiaChart
