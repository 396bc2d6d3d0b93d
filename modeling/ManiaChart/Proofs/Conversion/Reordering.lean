/-
Hit objects in another order. Where no two of their notes share a cell, no note
takes the place of another one, so the order of the hit objects matters to
nothing but the ids of their notes and the order of what is reported
(`Beatmap.convert_reordered`), as long as the last measure ends where it did.
-/
import ManiaChart.Proofs.Chart.Renumbering
import ManiaChart.Proofs.Conversion.Skipping
import ManiaChart.Proofs.Conversion.Winners

namespace ManiaChart

/-! ## Notes on cells of their own -/

section

variable {ends others : List NoteEnd} {cell : Int × Nat}

/-- Among notes on different cells, the order does not matter to a cell. -/
theorem lastEnd?_of_perm (h : ends.Perm others) (hfree : (ends.map NoteEnd.cell).Nodup) :
    lastEnd? others cell = lastEnd? ends cell := by
  have hfilter := h.filter (·.cell = cell)
  have hdistinct : ((ends.filter (·.cell = cell)).map NoteEnd.cell).Nodup :=
    hfree.sublist (List.filter_sublist.map _)
  unfold lastEnd?
  -- At most one note is on the cell.
  cases hon : ends.filter (·.cell = cell) with
  | nil => rw [hon, List.nil_perm] at hfilter; rw [hfilter]
  | cons noteEnd rest =>
    cases rest with
    | nil => rw [hon, List.singleton_perm] at hfilter; rw [← hfilter]
    | cons second rest =>
      have hsame : ∀ one ∈ ends.filter (·.cell = cell), one.cell = cell := by simp
      rw [hon] at hdistinct hsame
      simp [hsame noteEnd, hsame second] at hdistinct

theorem lastEnd?_map_renumber (σ : Equiv.Perm NoteId) (ends : List NoteEnd) (cell : Int × Nat) :
    lastEnd? (ends.map (NoteEnd.renumber σ)) cell = (lastEnd? ends cell).map (NoteEnd.renumber σ) := by
  rw [lastEnd?, List.filter_map, List.getLast?_map]
  rfl

end

namespace Plan

variable {plan other : Plan} {beatmap beatmap' : Beatmap} {identity : Chart.Identity} {rule : LongNoteRule}
  {σ : Equiv.Perm NoteId} {t : Int}

theorem index_lt_of_mem_sounds {sound : SoundNote} (h : sound ∈ plan.sounds) :
    sound.id.index < plan.sounds.length := by
  have hmem : sound.id.index ∈ plan.sounds.map (·.id.index) := List.mem_map_of_mem h
  rw [sounds, Stroke.map_index_soundsFrom, List.mem_range'_1, Nat.zero_add] at hmem
  exact hmem.2

/-- An id is that of a background note, of a note of a hit object, or of none. -/
theorem cases_id (plan : Plan) (rule : LongNoteRule) (id : NoteId) :
    (∃ sound ∈ plan.sounds, sound.id = id) ∨
      (∃ noteEnd ∈ plan.ends rule, noteEnd.id = id) ∨
      plan.sounds.length + (plan.ends rule).length ≤ id.index := by
  have hsounds := Stroke.map_index_soundsFrom 0 plan.opening
  have hends : (plan.ends rule).map (·.id.index) = List.range' plan.sounds.length (plan.ends rule).length := by
    rw [ends, size_laid]
    exact Placement.map_index_endsFrom ..
  rcases Nat.lt_or_ge id.index plan.sounds.length with hlt | hge
  · have hmem : id.index ∈ plan.sounds.map (·.id.index) := by
      rw [sounds, hsounds, List.mem_range'_1]
      exact ⟨Nat.zero_le _, by simpa [sounds] using hlt⟩
    obtain ⟨sound, hmem, hid⟩ := List.mem_map.1 hmem
    exact .inl ⟨sound, hmem, congrArg NoteId.mk hid⟩
  · rcases Nat.lt_or_ge id.index (plan.sounds.length + (plan.ends rule).length) with hlt | hge'
    · have hmem : id.index ∈ (plan.ends rule).map (·.id.index) := by
        rw [hends, List.mem_range'_1]
        exact ⟨hge, hlt⟩
      obtain ⟨noteEnd, hmem, hid⟩ := List.mem_map.1 hmem
      exact .inr (.inl ⟨noteEnd, hmem, congrArg NoteId.mk hid⟩)
    · exact .inr (.inr hge')

theorem get?_eq_none (h : plan.IsFor beatmap) {id : NoteId}
    (hid : plan.sounds.length + (plan.ends rule).length ≤ id.index) : (plan.draft rule).notes.get? id = none := by
  rw [← NoteStore.getElem?_all _ id.index, all_draft h, List.getElem?_eq_none_iff]
  simpa using hid

/-- Plans that share everything but the order of what hit objects place. -/
structure Reorders (plan other : Plan) : Prop where
  akin : plan.Akin other
  stop : other.stop = plan.stop
  skipped : other.skipped = plan.skipped
  events : other.beatmap.events = plan.beatmap.events
  placements : plan.placements.Perm other.placements

namespace Reorders

theorem placed (hr : plan.Reorders other) : plan.placed.Perm other.placed := hr.placements.filterMap _

theorem noteAt (hr : plan.Reorders other) : other.NoteAt t ↔ plan.NoteAt t := by
  simp only [NoteAt, hr.placed.mem_iff]

theorem drawnAt (hr : plan.Reorders other) (t : Int) : other.drawnAt t = plan.drawnAt t :=
  hr.akin.drawnAt hr.stop hr.noteAt

theorem has (hr : plan.Reorders other) (h : plan.IsFor beatmap) (h' : other.IsFor beatmap') :
    (other.draft rule).Has t ↔ (plan.draft rule).Has t := by
  rw [has_draft_iff h', has_draft_iff h, hr.akin.opening, hr.drawnAt, hr.noteAt]

theorem omissions (hr : plan.Reorders other) : other.omissions.Perm plan.omissions := by
  rw [Plan.omissions, Plan.omissions, hr.skipped, hr.events]
  exact (hr.placements.filterMap _).symm.append_left _

/-- The notes of hit objects are the same under other ids; background notes keep
theirs. -/
theorem exists_renumber_ends (hr : plan.Reorders other) (rule : LongNoteRule) :
    ∃ σ : Equiv.Perm NoteId,
      (∀ id, id.index < plan.sounds.length ∨ plan.sounds.length + (plan.ends rule).length ≤ id.index → σ id = id) ∧
        ((plan.ends rule).map (NoteEnd.renumber σ)).Perm (other.ends rule) := by
  obtain ⟨σ, hfixed, hends⟩ := Placement.exists_renumber_endsFrom hr.placed rule plan.sounds.length
  rw [ends, ends, size_laid, size_laid, hr.akin.sounds]
  exact ⟨σ, hfixed, hends⟩

theorem timelineAt (hr : plan.Reorders other) (h : plan.IsFor beatmap) (h' : other.IsFor beatmap')
    (hfree : ((plan.ends rule).map NoteEnd.cell).Nodup)
    (hends : ((plan.ends rule).map (NoteEnd.renumber σ)).Perm (other.ends rule)) (t : Int) :
    (other.draft rule).timelineAt t = ((plan.draft rule).timelineAt t).renumber σ := by
  have hnote : ∀ lane, ((other.draft rule).timelineAt t).note? lane =
      (((plan.draft rule).timelineAt t).renumber σ).note? lane := by
    intro lane
    have hfree' : (((plan.ends rule).map (NoteEnd.renumber σ)).map NoteEnd.cell).Nodup := by
      rwa [List.map_map]
    rw [Timeline.note?_renumber, note?_draft h', note?_draft h, lastEnd?_of_perm hends hfree',
      lastEnd?_map_renumber, Option.map_map, Option.map_map]
    rfl
  have hcount : ((other.draft rule).timelineAt t).laneCount =
      (((plan.draft rule).timelineAt t).renumber σ).laneCount := by
    rw [hr.akin.laneCount h h', Timeline.laneCount, Timeline.laneCount, Timeline.renumber, Array.size_map]
  rw [hr.akin.timelineAt h h' rule (hr.drawnAt t), Timeline.cells_eq hcount hnote]
  rfl

theorem timelines (hr : plan.Reorders other) (h : plan.IsFor beatmap) (h' : other.IsFor beatmap')
    (hfree : ((plan.ends rule).map NoteEnd.cell).Nodup)
    (hends : ((plan.ends rule).map (NoteEnd.renumber σ)).Perm (other.ends rule)) :
    (other.chart identity rule).timelines =
      (plan.chart identity rule).timelines.map (Timeline.renumber σ) := by
  have hirrefl : Std.Irrefl fun a b : Timeline => a.milliTime < b.milliTime := ⟨fun a => Int.lt_irrefl _⟩
  have hascending : ((plan.chart identity rule).timelines.map (Timeline.renumber σ)).Pairwise
      fun a b => a.milliTime < b.milliTime :=
    List.pairwise_map.2 (timelines_ascending h identity rule)
  refine (timelines_ascending h' identity rule).eq_of_mem_iff hascending fun timeline => ?_
  rw [mem_timelines, List.mem_map]
  simp only [mem_timelines, hr.has h h', hr.timelineAt h h' hfree hends]
  refine ⟨?_, ?_⟩
  · rintro ⟨t, hhas, rfl⟩
    exact ⟨_, ⟨t, hhas, rfl⟩, rfl⟩
  · rintro ⟨_, ⟨t, hhas, rfl⟩, rfl⟩
    exact ⟨t, hhas, rfl⟩

theorem notes (hr : plan.Reorders other) (h : plan.IsFor beatmap) (h' : other.IsFor beatmap')
    (hfree : ((plan.ends rule).map NoteEnd.cell).Nodup)
    (hfixed : ∀ id, id.index < plan.sounds.length ∨ plan.sounds.length + (plan.ends rule).length ≤ id.index →
      σ id = id)
    (hends : ((plan.ends rule).map (NoteEnd.renumber σ)).Perm (other.ends rule)) (id : NoteId) :
    (other.draft rule).notes.get? (σ id) = ((plan.draft rule).notes.get? id).map (Note.renumber σ) := by
  rcases plan.cases_id rule id with ⟨sound, hmem, rfl⟩ | ⟨noteEnd, hmem, rfl⟩ | hge
  · have hmem' : sound ∈ other.sounds := by rwa [hr.akin.sounds]
    rw [hfixed _ (.inl (index_lt_of_mem_sounds hmem)), get?_of_mem_sounds h' rule hmem',
      get?_of_mem_sounds h rule hmem, hr.akin.soundNote]
    rfl
  · have hmem' : noteEnd.renumber σ ∈ other.ends rule := hends.mem_iff.1 (List.mem_map_of_mem hmem)
    rw [get?_of_mem_ends h hmem, Option.map_some, ← NoteEnd.noteOn_renumber, ← hr.timelineAt h h' hfree hends]
    exact get?_of_mem_ends h' hmem'
  · have hlength := hends.length_eq
    rw [List.length_map] at hlength
    rw [hfixed id (.inr hge), get?_eq_none h hge, get?_eq_none h' (by rwa [hr.akin.sounds, ← hlength])]
    rfl

/-- **Charts of reordered plans** are the same but for the ids of notes. -/
theorem renumbered (hr : plan.Reorders other) (h : plan.IsFor beatmap) (h' : other.IsFor beatmap')
    (hfree : ((plan.ends rule).map NoteEnd.cell).Nodup) :
    ∃ σ, (plan.chart identity rule).Renumbered σ (other.chart identity rule) := by
  obtain ⟨σ, hfixed, hends⟩ := hr.exists_renumber_ends rule
  refine ⟨σ, hr.akin.header rule, rfl, ?_, rfl, hr.timelines h h' hfree hends, ?_, hr.notes h h' hfree hfixed hends⟩
  · exact congrArg Chart.Header.longNoteRule (hr.akin.header rule)
  · intro timeline hmem id hid
    obtain ⟨t, -, rfl⟩ := mem_timelines.1 hmem
    obtain ⟨sound, hsound, -, rfl⟩ := (mem_soundNotes_iff h rule).1 hid
    exact hfixed _ (.inl (index_lt_of_mem_sounds hsound))

end Reorders

/-! ## Hit objects -/

variable {objects others : List HitObject}

theorem reorders_withObjects (h : plan.IsFor (beatmap.withObjects objects))
    (h' : other.IsFor (beatmap.withObjects others)) (hakin : plan.Akin other) (hskipped : other.skipped = plan.skipped)
    (hperm : objects.Perm others)
    (hlast : others.getLast?.map HitObject.time = objects.getLast?.map HitObject.time) : plan.Reorders other where
  akin := hakin
  stop := stop_eq_of_getLast? h h' hlast
  skipped := hskipped
  events := by
    rw [h.source, h'.source]
    rfl
  placements := by
    rw [placements_withObjects h, placements_withObjects h', hakin.layout]
    exact hperm.map _

theorem map_cell_ends_withObjects (h : plan.IsFor (beatmap.withObjects objects)) (rule : LongNoteRule) :
    (plan.ends rule).map NoteEnd.cell = objects.flatMap (HitObject.cells plan.layout) := by
  rw [ends, placed, placements_withObjects h]
  exact HitObject.map_cell_endsFrom ..

theorem ne_nil_of_convert (h : ∃ converted, (beatmap.withObjects objects).convert identity rule = .ok converted) :
    objects ≠ [] := by
  rintro rfl
  obtain ⟨converted, h⟩ := h
  obtain ⟨plan, hplan, rfl⟩ := Beatmap.convert_eq_ok_iff.1 h
  cases stop_withObjects hplan

theorem exists_convert_of_perm (hperm : objects.Perm others)
    (h : ∃ converted, (beatmap.withObjects objects).convert identity rule = .ok converted) :
    ∃ converted, (beatmap.withObjects others).convert identity rule = .ok converted := by
  have hobjects := ne_nil_of_convert h
  have hothers : others ≠ [] := by
    rintro rfl
    exact hobjects (List.perm_nil.1 hperm)
  obtain ⟨converted, h⟩ := h
  obtain ⟨plan, hplan, rfl⟩ := Beatmap.convert_eq_ok_iff.1 h
  obtain ⟨other, hother, -⟩ := exists_isFor_withObjects hplan hothers
  exact ⟨_, Beatmap.convert_eq_ok_iff.2 ⟨other, hother, rfl⟩⟩

end Plan

/-- **Hit objects in another order.** Where no two notes of the hit objects share
a cell, another order of them with a last one of the same time is converted when
the first is, to the same chart but for the ids of the notes on lanes; and the
same records are reported. -/
theorem Beatmap.convert_reordered {beatmap : Beatmap} {objects others : List HitObject}
    (hperm : objects.Perm others)
    (hlast : others.getLast?.map HitObject.time = objects.getLast?.map HitObject.time)
    (hfree : ∀ layout, LaneLayout.ofKeyCount? beatmap.difficulty.keyCount = some layout →
      (objects.flatMap (HitObject.cells layout)).Nodup)
    (identity : Chart.Identity) (rule : LongNoteRule) :
    ((∃ converted, (beatmap.withObjects objects).convert identity rule = .ok converted) ↔
      ∃ other, (beatmap.withObjects others).convert identity rule = .ok other) ∧
    ∀ converted other, (beatmap.withObjects objects).convert identity rule = .ok converted →
      (beatmap.withObjects others).convert identity rule = .ok other →
      (∃ σ, converted.chart.Renumbered σ other.chart) ∧ other.omissions.Perm converted.omissions := by
  refine ⟨⟨Plan.exists_convert_of_perm hperm, Plan.exists_convert_of_perm hperm.symm⟩, ?_⟩
  intro converted other h h'
  obtain ⟨plan, hplan, rfl⟩ := convert_eq_ok_iff.1 h
  have hothers : others ≠ [] := Plan.ne_nil_of_convert ⟨_, h'⟩
  obtain ⟨reordered, hplan', hlayout, htiming, hskipped⟩ := Plan.exists_isFor_withObjects hplan hothers
  obtain rfl : (⟨reordered.chart identity rule, reordered.omissions⟩ : Converted) = other :=
    Except.ok.inj ((convert_eq_ok_iff.2 ⟨reordered, hplan', rfl⟩).symm.trans h')
  have hakin := Plan.akin_withObjects hplan hplan' hlayout htiming
  have hreorders := Plan.reorders_withObjects hplan hplan' hakin hskipped hperm hlast
  refine ⟨hreorders.renumbered hplan hplan' ?_, hreorders.omissions⟩
  rw [Plan.map_cell_ends_withObjects hplan]
  exact hfree plan.layout hplan.layout

/-- A hold note on the first column. -/
def HitObject.hold (time tail : Int) : HitObject :=
  { x := 36, y := 192, time, typeFlags := 128, hitSound := 0, params := [toString tail] }

/-- A hold note among notes hit once, one of them on another column beside its
head. -/
def HitObject.phrase : List HitObject := [.tap 500, .hold 1000 2000, { HitObject.tap 1000 with x := 500 }, .tap 3000]

/-- The same hit objects, the hold note first. -/
def HitObject.phraseReordered : List HitObject :=
  [.hold 1000 2000, { HitObject.tap 1000 with x := 500 }, .tap 500, .tap 3000]

/-- The hold note gets other ids, and its ends still refer to each other. -/
theorem Beatmap.convert_reordered_phrase :
    HitObject.phrase.Perm HitObject.phraseReordered ∧
      ∃ converted other,
        (steady.withObjects HitObject.phrase).convert ⟨"", "", ""⟩ .longNote = .ok converted ∧
        (steady.withObjects HitObject.phraseReordered).convert ⟨"", "", ""⟩ .longNote = .ok other ∧
        (converted.chart.timelines.map fun timeline => (timeline.milliTime, timeline.note? 0, timeline.note? 6)) =
          [(0, none, none), (38, none, none), (538, some ⟨1⟩, none), (1038, some ⟨2⟩, some ⟨4⟩),
            (2038, some ⟨3⟩, none), (3038, some ⟨5⟩, none)] ∧
        (other.chart.timelines.map fun timeline => (timeline.milliTime, timeline.note? 0, timeline.note? 6)) =
          [(0, none, none), (38, none, none), (538, some ⟨4⟩, none), (1038, some ⟨1⟩, some ⟨3⟩),
            (2038, some ⟨2⟩, none), (3038, some ⟨5⟩, none)] ∧
        (∃ σ, converted.chart.Renumbered σ other.chart) ∧ other.omissions.Perm converted.omissions := by
  have hperm : HitObject.phrase.Perm HitObject.phraseReordered := by decide
  have hcount : steady.difficulty.keyCount = 7 := by decide +kernel
  obtain ⟨-, hsame⟩ := convert_reordered hperm rfl (fun layout hlayout => by
    rw [hcount] at hlayout
    cases hlayout
    decide +kernel) ⟨"", "", ""⟩ .longNote
  obtain ⟨converted, h, hrun⟩ := exists_convert (steady.withObjects HitObject.phrase) ⟨"", "", ""⟩ .longNote
    (fun converted =>
      (converted.chart.timelines.map fun timeline => (timeline.milliTime, timeline.note? 0, timeline.note? 6)) =
        [(0, none, none), (38, none, none), (538, some ⟨1⟩, none), (1038, some ⟨2⟩, some ⟨4⟩),
          (2038, some ⟨3⟩, none), (3038, some ⟨5⟩, none)]) (by decide +kernel)
  obtain ⟨other, h', hrun'⟩ := exists_convert (steady.withObjects HitObject.phraseReordered) ⟨"", "", ""⟩ .longNote
    (fun other =>
      (other.chart.timelines.map fun timeline => (timeline.milliTime, timeline.note? 0, timeline.note? 6)) =
        [(0, none, none), (38, none, none), (538, some ⟨4⟩, none), (1038, some ⟨1⟩, some ⟨3⟩),
          (2038, some ⟨2⟩, none), (3038, some ⟨5⟩, none)]) (by decide +kernel)
  exact ⟨hperm, converted, other, h, h', of_decide_eq_true hrun, of_decide_eq_true hrun',
    hsame converted other h h'⟩

end ManiaChart
