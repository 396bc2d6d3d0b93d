/-
What becomes of the two ends of a long note. Each is put on its cell when its
hit object is drawn, and a cell takes whatever is put on it later, so an end
stays where it was put exactly when no later hit object has a note there
(`Plan.keeps_of_placed`).
-/
import ManiaChart.Proofs.Conversion.Cells
import ManiaChart.Proofs.Conversion.Milliseconds

namespace ManiaChart

/-! ## Placements in the order of the file -/

namespace Placement

theorem endsFrom_append (rule : LongNoteRule) (next : Nat) (before after : List Placement) :
    endsFrom rule next (before ++ after) =
      endsFrom rule next before ++ endsFrom rule (next + (endsFrom rule next before).length) after := by
  induction before generalizing next with
  | nil => rfl
  | cons placement rest ih =>
    rw [List.cons_append, endsFrom, ih, endsFrom, List.append_assoc, List.length_append, length_ends, Nat.add_assoc]

theorem head_lt_tail {layout : LaneLayout} {offset : Int} {object : HitObject} {lane : Nat}
    {head tail : Int} (h : ofObject layout offset object = .ok (.long lane head tail)) :
    head < tail := by
  rcases cases_ofObject h with hskipped | ⟨_, _, hnormal | ⟨_, hlt, hlong⟩⟩
  · cases hskipped
  · cases hnormal
  · cases hlong
    exact hlt

theorem head_mem_ends (rule : LongNoteRule) (next lane : Nat) (head tail : Int) :
    ⟨head, lane, ⟨next⟩, .longHead ⟨next + 1⟩ rule⟩ ∈ (long lane head tail).ends rule next :=
  List.mem_cons_self

theorem tail_mem_ends (rule : LongNoteRule) (next lane : Nat) (head tail : Int) :
    ⟨tail, lane, ⟨next + 1⟩, .longTail ⟨next⟩ rule⟩ ∈ (long lane head tail).ends rule next :=
  List.mem_cons_of_mem _ List.mem_cons_self

theorem lastEnd?_ends {layout : LaneLayout} {offset : Int} {object : HitObject}
    {placement : Placement} (h : ofObject layout offset object = .ok placement)
    {rule : LongNoteRule} {next : Nat} {noteEnd : NoteEnd}
    (hmem : noteEnd ∈ placement.ends rule next) :
    lastEnd? (placement.ends rule next) noteEnd.cell = some noteEnd := by
  cases placement with
  | skipped => cases hmem
  | normal lane time =>
    obtain rfl := List.mem_singleton.1 hmem
    simp [ends, lastEnd?]
  | long lane head tail =>
    have hne : head ≠ tail := Int.ne_of_lt (head_lt_tail h)
    simp only [ends, List.mem_cons, List.not_mem_nil, or_false] at hmem
    rcases hmem with rfl | rfl
    · simp [ends, lastEnd?, NoteEnd.cell, hne.symm]
    · simp [ends, lastEnd?, NoteEnd.cell, hne]

/-- Whether one of the placements has a note on a cell. -/
def Taken (placements : List Placement) (cell : Int × Nat) : Prop :=
  ∃ placement ∈ placements, cell ∈ placement.cells

theorem lastEnd?_endsFrom_eq_none_iff {rule : LongNoteRule} {next : Nat}
    {placements : List Placement} {cell : Int × Nat} :
    lastEnd? (endsFrom rule next placements) cell = none ↔ ¬Taken placements cell := by
  rw [lastEnd?_eq_none_iff]
  induction placements generalizing next with
  | nil => simp [endsFrom, Taken]
  | cons placement rest ih =>
    simp only [endsFrom, List.mem_append, or_imp, forall_and, ih, Taken, List.mem_cons, exists_eq_or_imp, not_or,
      ← map_cell_ends rule next placement, List.mem_map, not_exists, not_and]

/-- Whether a note is the one that the last of the placements with a note on a
cell puts there; the notes of the placements are stored from the id `next` on. -/
def TakenBy (rule : LongNoteRule) (next : Nat) (placements : List Placement) (cell : Int × Nat)
    (noteEnd : NoteEnd) : Prop :=
  ∃ before placement after, placements = before ++ placement :: after ∧
    noteEnd ∈ placement.ends rule (next + (endsFrom rule next before).length) ∧
    noteEnd.cell = cell ∧ ¬Taken after cell

theorem TakenBy.taken {rule : LongNoteRule} {next : Nat} {placements : List Placement} {cell : Int × Nat}
    {noteEnd : NoteEnd} (h : TakenBy rule next placements cell noteEnd) : Taken placements cell := by
  obtain ⟨before, placement, after, rfl, hmem, rfl, -⟩ := h
  refine ⟨placement, by simp, ?_⟩
  rw [← map_cell_ends rule]
  exact List.mem_map_of_mem hmem

theorem takenBy_of_lastEnd? {rule : LongNoteRule} {next : Nat} {placements : List Placement}
    {cell : Int × Nat} {noteEnd : NoteEnd}
    (h : lastEnd? (endsFrom rule next placements) cell = some noteEnd) :
    TakenBy rule next placements cell noteEnd := by
  induction placements generalizing next with
  | nil => cases h
  | cons placement rest ih =>
    rw [endsFrom, lastEnd?_append] at h
    cases hrest : lastEnd? (endsFrom rule (next + placement.times.length) rest) cell with
    | none =>
      rw [hrest, Option.none_or] at h
      obtain ⟨hmem, hcell⟩ := mem_of_lastEnd? h
      exact ⟨[], placement, rest, rfl, hmem, hcell, lastEnd?_endsFrom_eq_none_iff.1 hrest⟩
    | some other =>
      rw [hrest, Option.some_or] at h
      cases h
      obtain ⟨before, last, after, rfl, hmem, hcell, hfree⟩ := ih hrest
      refine ⟨placement :: before, last, after, rfl, ?_, hcell, hfree⟩
      rwa [endsFrom, List.length_append, length_ends, ← Nat.add_assoc]

theorem index_lt_of_mem_ends {rule : LongNoteRule} {next : Nat} {placement : Placement}
    {noteEnd : NoteEnd} (h : noteEnd ∈ placement.ends rule next) :
    noteEnd.id.index < next + placement.times.length := by
  have hmem : noteEnd.id.index ∈ (placement.ends rule next).map (·.id.index) := List.mem_map_of_mem h
  rw [map_index_ends, List.mem_range'_1] at hmem
  exact hmem.2

end Placement

/-! ## Ends that stay -/

/-- Whether the cell that a note was put on still holds it: it does unless later
placements take the cell, which then holds the note that the last of them puts
there. The notes of the later placements are stored from the id `next` on. -/
def Chart.Keeps (chart : Chart) (rule : LongNoteRule) (next : Nat) (later : List Placement) (t : Int)
    (lane : Nat) (id : NoteId) : Prop :=
  ∃ timeline ∈ chart.timelines, timeline.milliTime = t ∧
    (¬Placement.Taken later (t, lane) ∧ timeline.note? lane = some id ∨
      ∃ other, Placement.TakenBy rule next later (t, lane) other ∧ timeline.note? lane = some other.id ∧
        (chart.notes.get? other.id).map Note.kind = some other.kind ∧ id.index < other.id.index)

theorem Chart.Keeps.note {chart : Chart} {rule : LongNoteRule} {next : Nat} {later : List Placement}
    {t : Int} {lane : Nat} {id : NoteId} (h : chart.Keeps rule next later t lane id)
    (hfree : ¬Placement.Taken later (t, lane)) :
    ∃ timeline ∈ chart.timelines, timeline.milliTime = t ∧ timeline.note? lane = some id := by
  obtain ⟨timeline, hmem, htime, ⟨-, hnote⟩ | ⟨other, htaken, -⟩⟩ := h
  · exact ⟨timeline, hmem, htime, hnote⟩
  · exact absurd htaken.taken hfree

namespace Plan

variable {plan : Plan} {beatmap : Beatmap} {identity : Chart.Identity} {rule : LongNoteRule}

theorem has_of_placed (h : plan.IsFor beatmap) {placement : Placement} (hplaced : placement ∈ plan.placed)
    {next : Nat} {noteEnd : NoteEnd} (hmem : noteEnd ∈ placement.ends rule next) :
    (plan.draft rule).Has noteEnd.time := by
  have htime : noteEnd.time ∈ placement.times := by
    rw [← Placement.map_time_ends rule next]
    exact List.mem_map_of_mem hmem
  exact (has_draft h).2 ⟨.notes placement, by simp [strokes_eq, hplaced], htime⟩

/-- A note of a hit object stays on its cell unless a later hit object takes
it. -/
theorem keeps_of_placed (h : plan.IsFor beatmap) (identity : Chart.Identity)
    {before after : List Placement} {placement : Placement}
    (hsplit : plan.placed = before ++ placement :: after) {next : Nat}
    (hnext : (plan.laid rule).notes.size + (Placement.endsFrom rule (plan.laid rule).notes.size before).length = next)
    {noteEnd : NoteEnd} (hmem : noteEnd ∈ placement.ends rule next) :
    (plan.chart identity rule).Keeps rule (next + placement.times.length) after noteEnd.time noteEnd.lane
      noteEnd.id := by
  have hplaced : placement ∈ plan.placed := hsplit ▸ by simp
  obtain ⟨object, -, hobject⟩ := exists_object_of_mem_placed hplaced
  have hend := Placement.lastEnd?_ends hobject hmem
  have hhas := has_of_placed h hplaced hmem
  have hlast : lastEnd? (plan.ends rule) noteEnd.cell =
      (lastEnd? (Placement.endsFrom rule (next + placement.times.length) after) noteEnd.cell).or (some noteEnd) := by
    rw [ends, hsplit, Placement.endsFrom_append, hnext, Placement.endsFrom, lastEnd?_append, lastEnd?_append, hend]
    cases lastEnd? (Placement.endsFrom rule (next + placement.times.length) after) noteEnd.cell <;> rfl
  refine ⟨_, mem_timelines.2 ⟨_, hhas, rfl⟩, (shows_draft h rule _).milliTime, ?_⟩
  rw [note?_draft h, show (noteEnd.time, noteEnd.lane) = noteEnd.cell from rfl]
  cases hlater : lastEnd? (Placement.endsFrom rule (next + placement.times.length) after) noteEnd.cell with
  | none =>
    rw [hlast, hlater]
    exact .inl ⟨Placement.lastEnd?_endsFrom_eq_none_iff.1 hlater, rfl⟩
  | some other =>
    rw [hlater, Option.some_or] at hlast
    have hindex : noteEnd.id.index < other.id.index :=
      Nat.lt_of_lt_of_le (Placement.index_lt_of_mem_ends hmem)
        (Placement.le_index_of_mem_endsFrom (mem_of_lastEnd? hlater).1)
    rw [hlast]
    exact .inr ⟨other, Placement.takenBy_of_lastEnd? hlater, rfl,
      kind_of_mem_ends h (mem_of_lastEnd? hlast).1, hindex⟩

/-- A note on a cell was put there by a hit object and is what it was stored
as. -/
theorem exists_end_of_note? (h : plan.IsFor beatmap) {t : Int} {lane : Nat} {id : NoteId}
    {kind : NoteKind} (hnote : ((plan.draft rule).timelineAt t).note? lane = some id)
    (hkind : ((plan.draft rule).notes.get? id).map Note.kind = some kind) :
    ∃ before placement after, plan.placed = before ++ placement :: after ∧
      (⟨t, lane, id, kind⟩ : NoteEnd) ∈ placement.ends rule ((plan.laid rule).notes.size +
        (Placement.endsFrom rule (plan.laid rule).notes.size before).length) := by
  rw [note?_draft h] at hnote
  obtain ⟨noteEnd, hlast, rfl⟩ := Option.map_eq_some_iff.1 hnote
  rw [kind_of_mem_ends h (mem_of_lastEnd? hlast).1] at hkind
  obtain ⟨before, placement, after, hsplit, hmem, hcell, -⟩ := Placement.takenBy_of_lastEnd? hlast
  obtain ⟨rfl, rfl⟩ := Prod.mk.inj hcell
  cases hkind
  exact ⟨before, placement, after, hsplit, hmem⟩

/-- An end of a long note on a cell was put there by a hold note, whose two ends
stay where they were put unless a later hit object takes the cell. -/
theorem exists_long_of_note? (h : plan.IsFor beatmap) {t : Int} {lane : Nat} {id : NoteId}
    {kind : NoteKind} (hnote : ((plan.draft rule).timelineAt t).note? lane = some id)
    (hkind : ((plan.draft rule).notes.get? id).map Note.kind = some kind) (hlong : kind ≠ .normal) :
    ∃ before head tail after next, plan.placed = before ++ .long lane head tail :: after ∧ head < tail ∧
      (plan.chart identity rule).Keeps rule (next + 2) after head lane ⟨next⟩ ∧
      (plan.chart identity rule).Keeps rule (next + 2) after tail lane ⟨next + 1⟩ ∧
      (t = head ∧ kind = .longHead ⟨next + 1⟩ rule ∨ t = tail ∧ kind = .longTail ⟨next⟩ rule) := by
  obtain ⟨before, placement, after, hsplit, hmem⟩ := exists_end_of_note? h hnote hkind
  have hplaced : placement ∈ plan.placed := hsplit ▸ by simp
  obtain ⟨object, -, hobject⟩ := exists_object_of_mem_placed hplaced
  cases placement with
  | skipped => cases hmem
  | normal other time =>
    simp only [Placement.ends, List.mem_singleton, NoteEnd.mk.injEq] at hmem
    exact absurd hmem.2.2.2 hlong
  | long other head tail =>
    have hhead := keeps_of_placed h identity hsplit rfl (Placement.head_mem_ends rule ..)
    have htail := keeps_of_placed h identity hsplit rfl (Placement.tail_mem_ends rule ..)
    simp only [Placement.ends, List.mem_cons, NoteEnd.mk.injEq, List.not_mem_nil, or_false] at hmem
    rcases hmem with ⟨rfl, rfl, -, rfl⟩ | ⟨rfl, rfl, -, rfl⟩
    · exact ⟨before, t, tail, after, _, hsplit, Placement.head_lt_tail hobject, hhead, htail,
        .inl ⟨rfl, rfl⟩⟩
    · exact ⟨before, head, t, after, _, hsplit, Placement.head_lt_tail hobject, hhead, htail,
        .inr ⟨rfl, rfl⟩⟩

/-- A head on a lane has its tail put on the same lane later on. -/
theorem keeps_tail (h : plan.IsFor beatmap) {t : Int} {lane : Nat} {id tail : NoteId}
    {r : LongNoteRule} (hnote : ((plan.draft rule).timelineAt t).note? lane = some id)
    (hkind : ((plan.draft rule).notes.get? id).map Note.kind = some (.longHead tail r)) :
    ∃ before stop after, plan.placed = before ++ .long lane t stop :: after ∧ t < stop ∧
      (plan.chart identity rule).Keeps rule (tail.index + 1) after stop lane tail := by
  obtain ⟨before, head, stop, after, next, hsplit, hlt, -, hkeeps, hend⟩ :=
    exists_long_of_note? h hnote hkind (by simp)
  rcases hend with ⟨rfl, hhead⟩ | ⟨-, htail⟩
  · cases hhead
    exact ⟨before, stop, after, hsplit, hlt, hkeeps⟩
  · cases htail

/-- A tail on a lane had its head put on the same lane before. -/
theorem keeps_head (h : plan.IsFor beatmap) {t : Int} {lane : Nat} {id head : NoteId}
    {r : LongNoteRule} (hnote : ((plan.draft rule).timelineAt t).note? lane = some id)
    (hkind : ((plan.draft rule).notes.get? id).map Note.kind = some (.longTail head r)) :
    ∃ before start after, plan.placed = before ++ .long lane start t :: after ∧ start < t ∧
      (plan.chart identity rule).Keeps rule (head.index + 2) after start lane head := by
  obtain ⟨before, start, tail, after, next, hsplit, hlt, hkeeps, -, hend⟩ :=
    exists_long_of_note? h hnote hkind (by simp)
  rcases hend with ⟨-, hhead⟩ | ⟨rfl, htail⟩
  · cases hhead
  · cases htail
    exact ⟨before, start, after, hsplit, hlt, hkeeps⟩

end Plan

/-! ## Whole long notes -/

/-- Whether each end of a long note on a lane has the other end on the same lane
of another timeline, a tail strictly after its head. -/
def Chart.LongNotesWhole (chart : Chart) : Prop :=
  ∀ timeline ∈ chart.timelines, ∀ lane id, timeline.note? lane = some id →
    (∀ tail r, (chart.notes.get? id).map Note.kind = some (.longHead tail r) →
      ∃ later ∈ chart.timelines, timeline.microTime < later.microTime ∧ later.note? lane = some tail) ∧
    (∀ head r, (chart.notes.get? id).map Note.kind = some (.longTail head r) →
      ∃ earlier ∈ chart.timelines, earlier.microTime < timeline.microTime ∧ earlier.note? lane = some head)

namespace Plan

variable {plan : Plan} {beatmap : Beatmap}

/-- Whether no hit object has a note on a cell of an earlier one. -/
def Apart (plan : Plan) : Prop :=
  plan.placed.Pairwise fun earlier later => ∀ cell ∈ earlier.cells, cell ∉ later.cells

theorem Apart.free (hapart : plan.Apart) {before after : List Placement} {placement : Placement}
    (hsplit : plan.placed = before ++ placement :: after) {cell : Int × Nat} (hcell : cell ∈ placement.cells) :
    ¬Placement.Taken after cell := by
  rw [Apart, hsplit, List.pairwise_append] at hapart
  obtain ⟨-, hafter, -⟩ := hapart
  rintro ⟨later, hlater, htaken⟩
  exact (List.pairwise_cons.1 hafter).1 later hlater cell hcell htaken

/-- Long notes are whole in the chart of a beatmap whose hit objects keep off
each other's cells. -/
theorem Apart.longNotesWhole (hapart : plan.Apart) (h : plan.IsFor beatmap) (identity : Chart.Identity)
    (rule : LongNoteRule) : (plan.chart identity rule).LongNotesWhole := by
  have horder : ∀ {a b : Timeline}, a ∈ (plan.chart identity rule).timelines →
      b ∈ (plan.chart identity rule).timelines → a.milliTime < b.milliTime → a.microTime < b.microTime := by
    intro a b ha hb hlt
    rw [(shows_of_mem_timelines h ha).microTime, (shows_of_mem_timelines h hb).microTime]
    omega
  intro timeline hmem lane id hnote
  obtain ⟨t, -, hdraft⟩ := mem_timelines.1 hmem
  subst hdraft
  have htime := (shows_draft h rule t).milliTime
  refine ⟨fun tail r hkind => ?_, fun head r hkind => ?_⟩
  · obtain ⟨before, stop, after, hsplit, hlt, hkeeps⟩ := keeps_tail h hnote hkind
    obtain ⟨later, hlater, rfl, htail⟩ := hkeeps.note (hapart.free hsplit (by simp [Placement.cells]))
    rw [← htime] at hlt
    exact ⟨later, hlater, horder hmem hlater hlt, htail⟩
  · obtain ⟨before, start, after, hsplit, hlt, hkeeps⟩ := keeps_head h hnote hkind
    obtain ⟨earlier, hearlier, rfl, hhead⟩ := hkeeps.note (hapart.free hsplit (by simp [Placement.cells]))
    rw [← htime] at hlt
    exact ⟨earlier, hearlier, horder hearlier hmem hlt, hhead⟩

end Plan

/-- **The ends of a long note.** An end on a lane has its partner on the same
lane of another timeline, a tail strictly after its head, unless a hit object
later in the file has a note on the partner's cell, which then holds the note of
the last such object. So long notes are whole where no hit object has a note on a
cell of an earlier one. -/
theorem Beatmap.convert_keeps_long {beatmap : Beatmap} {identity : Chart.Identity}
    {rule : LongNoteRule} {converted : Converted}
    (h : beatmap.convert identity rule = .ok converted) :
    ∃ plan : Plan, plan.IsFor beatmap ∧
      (∀ timeline ∈ converted.chart.timelines, ∀ lane id, timeline.note? lane = some id →
        (∀ tail r, (converted.chart.notes.get? id).map Note.kind = some (.longHead tail r) →
          ∃ before stop after, plan.placed = before ++ .long lane timeline.milliTime stop :: after ∧
            timeline.milliTime < stop ∧ converted.chart.Keeps rule (tail.index + 1) after stop lane tail) ∧
        (∀ head r, (converted.chart.notes.get? id).map Note.kind = some (.longTail head r) →
          ∃ before start after, plan.placed = before ++ .long lane start timeline.milliTime :: after ∧
            start < timeline.milliTime ∧ converted.chart.Keeps rule (head.index + 2) after start lane head)) ∧
      (plan.Apart → converted.chart.LongNotesWhole) := by
  obtain ⟨plan, hplan, rfl⟩ := convert_eq_ok_iff.1 h
  refine ⟨plan, hplan, fun timeline hmem lane id hnote => ?_, fun hapart => hapart.longNotesWhole hplan identity rule⟩
  obtain ⟨t, -, rfl⟩ := Plan.mem_timelines.1 hmem
  rw [(Plan.shows_draft hplan rule t).milliTime]
  exact ⟨fun tail r hkind => Plan.keeps_tail hplan hnote hkind,
    fun head r hkind => Plan.keeps_head hplan hnote hkind⟩

/-- A hold note and a note of the same column where it ends. -/
def Beatmap.touching : Beatmap :=
  .sevenKeys #[{ time := 0, beatLength := 500 }]
    #[{ x := 36, y := 192, time := 1000, typeFlags := 128, hitSound := 0, params := ["2000"] },
      { x := 36, y := 192, time := 2000, typeFlags := 1, hitSound := 0, params := [] }]

/-- The later note takes the cell of the tail, and the head stays. -/
theorem Beatmap.exists_convert_touching :
    ∃ converted, Beatmap.touching.convert ⟨"", "", ""⟩ .longNote = .ok converted ∧
      (converted.chart.timelines.map fun timeline => (timeline.milliTime, timeline.note? 0)) =
        [(0, none), (38, none), (1038, some ⟨1⟩), (2038, some ⟨3⟩)] ∧
      converted.chart.notes.kinds = [.normal, .longHead ⟨2⟩ .longNote, .longTail ⟨1⟩ .longNote, .normal] := by
  obtain ⟨converted, h, hrun⟩ := exists_convert touching ⟨"", "", ""⟩ .longNote (fun converted =>
    (converted.chart.timelines.map fun timeline => (timeline.milliTime, timeline.note? 0)) =
        [(0, none), (38, none), (1038, some ⟨1⟩), (2038, some ⟨3⟩)] ∧
      converted.chart.notes.kinds = [.normal, .longHead ⟨2⟩ .longNote, .longTail ⟨1⟩ .longNote, .normal])
    (by decide +kernel)
  exact ⟨converted, h, by simpa using hrun⟩

/-- A hold note and a later note of the same column. -/
def Beatmap.spaced : Beatmap :=
  .sevenKeys #[{ time := 0, beatLength := 500 }]
    #[{ x := 36, y := 192, time := 1000, typeFlags := 128, hitSound := 0, params := ["2000"] },
      { x := 36, y := 192, time := 3000, typeFlags := 1, hitSound := 0, params := [] }]

theorem Plan.apart_spaced {plan : Plan} (h : plan.IsFor Beatmap.spaced) : plan.Apart := by
  have happly := h.of_layout (fun layout => decide
    (((Beatmap.spaced.hitObjects.toList.map (Placement.ofObject layout alignmentOffset)).filterMap
      Except.toOption).Pairwise fun earlier later => ∀ cell ∈ earlier.cells, cell ∉ later.cells)) (by decide +kernel)
  rw [decide_eq_true_eq, ← h.source] at happly
  exact happly

theorem Beatmap.convert_keeps_long_touching :
    (∃ converted, Beatmap.touching.convert ⟨"", "", ""⟩ .longNote = .ok converted ∧
      (converted.chart.timelines.map fun timeline => (timeline.milliTime, timeline.note? 0)) =
        [(0, none), (38, none), (1038, some ⟨1⟩), (2038, some ⟨3⟩)] ∧
      ∃ plan : Plan, plan.IsFor Beatmap.touching ∧
        (∀ timeline ∈ converted.chart.timelines, ∀ lane id, timeline.note? lane = some id →
          (∀ tail r, (converted.chart.notes.get? id).map Note.kind = some (.longHead tail r) →
            ∃ before stop after, plan.placed = before ++ .long lane timeline.milliTime stop :: after ∧
              timeline.milliTime < stop ∧ converted.chart.Keeps .longNote (tail.index + 1) after stop lane tail) ∧
          (∀ head r, (converted.chart.notes.get? id).map Note.kind = some (.longTail head r) →
            ∃ before start after, plan.placed = before ++ .long lane start timeline.milliTime :: after ∧
              start < timeline.milliTime ∧ converted.chart.Keeps .longNote (head.index + 2) after start lane head)) ∧
        (plan.Apart → converted.chart.LongNotesWhole)) ∧
    ∃ converted, Beatmap.spaced.convert ⟨"", "", ""⟩ .longNote = .ok converted ∧
      (converted.chart.timelines.map fun timeline => (timeline.milliTime, timeline.note? 0)) =
        [(0, none), (38, none), (1038, some ⟨1⟩), (2038, some ⟨2⟩), (3038, some ⟨3⟩)] ∧
      ∃ plan : Plan, plan.IsFor Beatmap.spaced ∧ plan.Apart ∧ converted.chart.LongNotesWhole := by
  obtain ⟨converted, h, htimelines, -⟩ := exists_convert_touching
  obtain ⟨other, h', hrun⟩ := exists_convert spaced ⟨"", "", ""⟩ .longNote (fun converted =>
    (converted.chart.timelines.map fun timeline => (timeline.milliTime, timeline.note? 0)) =
        [(0, none), (38, none), (1038, some ⟨1⟩), (2038, some ⟨2⟩), (3038, some ⟨3⟩)]) (by decide +kernel)
  obtain ⟨plan, hplan, -, hwhole⟩ := convert_keeps_long h'
  have hapart := Plan.apart_spaced hplan
  exact ⟨⟨converted, h, htimelines, convert_keeps_long h⟩,
    other, h', of_decide_eq_true hrun, plan, hplan, hapart, hwhole hapart⟩

theorem Beatmap.not_longNotesWhole_touching :
    ∃ converted, Beatmap.touching.convert ⟨"", "", ""⟩ .longNote = .ok converted ∧
      ¬converted.chart.LongNotesWhole := by
  obtain ⟨converted, h, htimelines, hkinds⟩ := exists_convert_touching
  refine ⟨converted, h, fun hwhole => ?_⟩
  have hhead : (1038, some ⟨1⟩) ∈
      converted.chart.timelines.map fun timeline => (timeline.milliTime, timeline.note? 0) := by
    simp [htimelines]
  obtain ⟨timeline, hmem, hcell⟩ := List.mem_map.1 hhead
  have hkind : (converted.chart.notes.get? ⟨1⟩).map Note.kind = some (.longHead ⟨2⟩ .longNote) := by
    rw [← NoteStore.getElem?_kinds, hkinds]
    rfl
  obtain ⟨later, hlater, -, hnote⟩ := (hwhole timeline hmem 0 ⟨1⟩ (congrArg Prod.snd hcell)).1 _ _ hkind
  have htail : (later.milliTime, later.note? 0) ∈
      converted.chart.timelines.map fun timeline => (timeline.milliTime, timeline.note? 0) :=
    List.mem_map_of_mem hlater
  simp [htimelines, hnote] at htail

end ManiaChart
