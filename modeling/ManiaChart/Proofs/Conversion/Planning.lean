/-
What the plan of a beatmap is (`Beatmap.plan_eq_ok_iff`), and that its strokes
can be drawn: every lane that a layout names is a lane of its play mode
(`LaneLayout.laneAt?_lt`), so that no note of a plan is dropped for want of its
lane (`Plan.strokes_fit`).

The timelines of a converted chart are then those of one run of strokes on a
blank draft (`Beatmap.convert_eq_ok_iff`, `Plan.mem_timelines`).
-/
import ManiaChart.Conversion.Plan
import ManiaChart.Proofs.Conversion.Drawing
import ManiaChart.Proofs.Timing.Lookup

namespace ManiaChart

/-! ## Lanes -/

theorem LaneLayout.columns_lt {keyCount : Nat} {layout : LaneLayout}
    (h : ofKeyCount? keyCount = some layout) :
    ∀ column ∈ layout.columns, ∀ lane ∈ column, lane < layout.mode.laneCount := by
  simp only [ofKeyCount?] at h
  split at h <;> cases h <;> decide

theorem LaneLayout.laneAt?_lt {keyCount : Nat} {layout : LaneLayout}
    (h : ofKeyCount? keyCount = some layout) {x : Int} {lane : Nat}
    (hlane : layout.laneAt? x = some lane) : lane < layout.mode.laneCount := by
  simp only [laneAt?, Option.join_eq_some_iff] at hlane
  exact columns_lt h (some lane) (List.mem_of_getElem? hlane) lane rfl

/-- What an object that is not left out becomes. A long note ends after it
starts. -/
theorem Placement.cases_ofObject {layout : LaneLayout} {offset : Int} {object : HitObject}
    {placement : Placement} (h : ofObject layout offset object = .ok placement) :
    placement = skipped ∨ ∃ lane, layout.laneAt? object.x = some lane ∧
      (placement = normal lane (object.time + offset) ∨
        ∃ tail, object.time + offset < tail ∧ placement = long lane (object.time + offset) tail) := by
  unfold ofObject at h
  split at h
  · cases h
    exact .inl rfl
  split at h
  · cases h
    exact .inl rfl
  next lane hlane =>
    refine .inr ⟨lane, hlane, ?_⟩
    dsimp only at h
    split at h
    · cases htail : tailTime object with
      | error omission => rw [htail] at h; cases h
      | ok written =>
        rw [htail] at h
        simp only [bind, Except.bind, pure, Except.pure, Except.ok.injEq] at h
        subst h
        split
        · exact .inl rfl
        next hlt => exact .inr ⟨_, Int.not_le.1 hlt, rfl⟩
    · cases h
      exact .inl rfl

theorem Placement.fits_ofObject {keyCount : Nat} {layout : LaneLayout}
    (h : LaneLayout.ofKeyCount? keyCount = some layout) {offset : Int} {object : HitObject}
    {placement : Placement} (hp : ofObject layout offset object = .ok placement) :
    placement.Fits layout.mode.laneCount := by
  obtain rfl | ⟨lane, hlane, rfl | ⟨tail, -, rfl⟩⟩ := cases_ofObject hp
  · trivial
  · exact LaneLayout.laneAt?_lt h hlane
  · exact LaneLayout.laneAt?_lt h hlane

/-! ## Plans -/

/-- What a plan for a beatmap is made of. -/
structure Plan.IsFor (plan : Plan) (beatmap : Beatmap) : Prop where
  source : plan.beatmap = beatmap
  mode : beatmap.general.mode = maniaMode
  layout : LaneLayout.ofKeyCount? beatmap.difficulty.keyCount = some plan.layout
  timing : Timing.ofPoints? alignmentOffset beatmap.timingPoints.toList = some (plan.timing, plan.skipped)
  /-- The last measure ends at the last hit object. -/
  stop : beatmap.hitObjects.back?.map (·.time + alignmentOffset) = some plan.stop

theorem Timing.ofPoints?_nil (offset : Int) : ofPoints? offset [] = none := by
  have hempty : (∅ : Std.TreeMap Int Binary64).toList = [] := rfl
  simp [ofPoints?, ofParted?, align, Parted.addAll, Parted.tempoPoints, hempty, stretchesFrom]

theorem Beatmap.plan_eq_ok_iff {beatmap : Beatmap} {plan : Plan} :
    beatmap.plan = .ok plan ↔ plan.IsFor beatmap := by
  simp only [Beatmap.plan, throw, throwThe, MonadExceptOf.throw, bind, Except.bind, pure, Except.pure]
  refine ⟨?_, ?_⟩
  · intro h
    split at h
    · cases h
    split at h
    next last hlast =>
      split at h
      · cases h
      next hmode =>
      split at h
      next layout hlayout =>
        split at h
        next timing skipped htiming =>
          cases h
          exact ⟨rfl, Decidable.of_not_not hmode, hlayout, htiming, by simp [hlast]⟩
        · cases h
      · cases h
    · cases h
  · intro h
    obtain ⟨last, hlast, hstop⟩ := Option.map_eq_some_iff.1 h.stop
    have hpoints : ¬beatmap.timingPoints.isEmpty = true := fun hempty => by
      have htiming := h.timing
      rw [Array.isEmpty_iff.1 hempty, Timing.ofPoints?_nil] at htiming
      cases htiming
    rw [if_neg hpoints]
    simp only [hlast, h.mode, h.layout, h.timing, ne_eq, not_true_eq_false, if_false, hstop]
    simp only [← h.source]

/-- A conversion gives the chart and the omissions of the plan. -/
theorem Beatmap.convert_eq_ok_iff {beatmap : Beatmap} {identity : Chart.Identity}
    {rule : LongNoteRule} {converted : Converted} :
    beatmap.convert identity rule = .ok converted ↔
      ∃ plan : Plan, plan.IsFor beatmap ∧ converted = ⟨plan.chart identity rule, plan.omissions⟩ := by
  simp only [convert, bind, Except.bind, pure, Except.pure]
  refine ⟨?_, ?_⟩
  · intro h
    split at h
    · cases h
    · next plan hplan =>
      cases h
      exact ⟨plan, plan_eq_ok_iff.1 hplan, rfl⟩
  · intro hplan
    obtain ⟨plan, hplan, rfl⟩ := hplan
    rw [plan_eq_ok_iff.2 hplan]

/-! ## The strokes of a plan -/

/-- A stroke before those of measure lines and hit objects: where it sets a
tempo and a scroll speed, they are those of the timing. -/
def Stroke.Opens (timing : Timing) : Stroke → Prop
  | sound .. | refresh _ | image .. => True
  | speed time bpm scroll => bpm = timing.bpmAt time ∧ scroll = timing.scrollAt time
  | measureLine _ | notes _ => False

namespace Plan

/-- The strokes before those of measure lines and hit objects. -/
def opening (plan : Plan) : List Stroke :=
  Stroke.ofStart plan.media ++ Stroke.ofVideos alignmentOffset plan.media ++
    Stroke.ofSamples alignmentOffset plan.media ++ Stroke.ofTempoPoints plan.timing ++
    Stroke.ofScrollPoints plan.timing

/-- The measure lines of the chart. -/
def measureLines (plan : Plan) : List MeasureLine := plan.timing.measureLines plan.stop

/-- The placements of the hit objects that are not left out. -/
def placed (plan : Plan) : List Placement := plan.placements.filterMap Except.toOption

theorem strokes_eq (plan : Plan) :
    plan.strokes =
      plan.opening ++ plan.measureLines.map Stroke.measureLine ++ plan.placed.map Stroke.notes := rfl

theorem opens_of_mem {plan : Plan} {stroke : Stroke} (h : stroke ∈ plan.opening) :
    stroke.Opens plan.timing := by
  simp only [opening, List.mem_append] at h
  rcases h with (((h | h) | h) | h) | h
  · simp only [Stroke.ofStart, List.mem_cons, List.not_mem_nil, or_false] at h
    rcases h with rfl | rfl <;> trivial
  · obtain ⟨_, _, rfl⟩ := List.mem_mapIdx.1 h
    trivial
  · obtain ⟨pair, hpair, hmem⟩ := List.mem_flatten.1 h
    obtain ⟨_, _, rfl⟩ := List.mem_mapIdx.1 hpair
    simp only [List.mem_cons, List.not_mem_nil, or_false] at hmem
    rcases hmem with rfl | rfl <;> trivial
  · obtain ⟨point, hpoint, rfl⟩ := List.mem_map.1 h
    exact ⟨(Timing.bpmAt_tempoPoint hpoint).symm, rfl⟩
  · obtain ⟨point, hpoint, rfl⟩ := List.mem_map.1 h
    exact ⟨rfl, (Timing.scrollAt_scrollPoint hpoint).symm⟩

theorem mem_placed {plan : Plan} {placement : Placement} :
    placement ∈ plan.placed ↔ .ok placement ∈ plan.placements := by
  simp only [placed, List.mem_filterMap]
  refine ⟨?_, ?_⟩
  · intro h
    obtain ⟨result, hmem, h⟩ := h
    cases result with
    | error omission => cases h
    | ok other => cases h; exact hmem
  · intro h
    exact ⟨_, h, rfl⟩

theorem exists_object_of_mem_placed {plan : Plan} {placement : Placement}
    (h : placement ∈ plan.placed) :
    ∃ object ∈ plan.beatmap.hitObjects,
      Placement.ofObject plan.layout alignmentOffset object = .ok placement := by
  obtain ⟨object, hmem, hobject⟩ := List.mem_map.1 (mem_placed.1 h)
  exact ⟨object, Array.mem_toList_iff.1 hmem, hobject⟩

theorem fits_of_mem_placed {plan : Plan} {beatmap : Beatmap} (h : plan.IsFor beatmap)
    {placement : Placement} (hp : placement ∈ plan.placed) :
    placement.Fits plan.layout.mode.laneCount := by
  obtain ⟨object, -, hobject⟩ := exists_object_of_mem_placed hp
  exact Placement.fits_ofObject h.layout hobject

theorem strokes_fit {plan : Plan} {beatmap : Beatmap} (h : plan.IsFor beatmap) :
    ∀ stroke ∈ plan.strokes, stroke.Fits plan.layout.mode.laneCount := by
  intro stroke hmem
  simp only [strokes_eq, List.mem_append, List.mem_map] at hmem
  rcases hmem with (hmem | ⟨line, -, rfl⟩) | ⟨placement, hplaced, rfl⟩
  · have hopens := opens_of_mem hmem
    cases stroke with
    | notes => exact hopens.elim
    | _ => trivial
  · trivial
  · exact fits_of_mem_placed h hplaced

/-! ## The run of a plan -/

/-- The draft before the first stroke. -/
def blank (plan : Plan) : Draft :=
  { timing := plan.timing, laneCount := plan.layout.mode.laneCount }

theorem not_has_blank (plan : Plan) (t : Int) : ¬plan.blank.Has t := by
  simp [Draft.Has, Draft.get?, blank]

theorem timelineAt_blank (plan : Plan) (t : Int) : plan.blank.timelineAt t = plan.blank.seed t := by
  simp [Draft.timelineAt, Draft.get?, blank]

theorem has_draft {plan : Plan} {beatmap : Beatmap} (h : plan.IsFor beatmap) {rule : LongNoteRule}
    {t : Int} : (plan.draft rule).Has t ↔ ∃ stroke ∈ plan.strokes, t ∈ stroke.times := by
  show (Stroke.drawAll rule plan.blank plan.strokes).Has t ↔ _
  rw [Stroke.has_drawAll (strokes_fit h), or_iff_left (plan.not_has_blank t)]

/-- The last writer wins, from the blank draft on. -/
theorem field_draft {plan : Plan} {beatmap : Beatmap} (h : plan.IsFor beatmap) {rule : LongNoteRule}
    {t : Int} {α : Type} (field : Timeline → α) (write : Stroke → Option α)
    (step : ∀ (draft : Draft) (stroke : Stroke), draft.timing = plan.timing →
      draft.laneCount = plan.layout.mode.laneCount → stroke ∈ plan.strokes → ∀ timeline,
        field (stroke.change rule draft t timeline) = (write stroke).getD (field timeline)) :
    field ((plan.draft rule).timelineAt t) =
      (plan.strokes.filterMap write).getLast?.getD (field (plan.blank.seed t)) := by
  rw [← timelineAt_blank]
  exact Stroke.field_drawAll field write step rfl rfl (strokes_fit h)

theorem timelines_chart (plan : Plan) (identity : Chart.Identity) (rule : LongNoteRule) :
    (plan.chart identity rule).timelines = (plan.draft rule).toList := rfl

theorem mem_timelines {plan : Plan} {identity : Chart.Identity} {rule : LongNoteRule}
    {timeline : Timeline} :
    timeline ∈ (plan.chart identity rule).timelines ↔
      ∃ t, (plan.draft rule).Has t ∧ timeline = (plan.draft rule).timelineAt t :=
  Draft.mem_toList

end Plan

/-! ## Small beatmaps -/

/-- A conversion that succeeds, with what its run shows. -/
theorem Beatmap.exists_convert (beatmap : Beatmap) (identity : Chart.Identity) (rule : LongNoteRule)
    (p : Converted → Bool) (h : (beatmap.convert identity rule).toOption.any p = true) :
    ∃ converted, beatmap.convert identity rule = .ok converted ∧ p converted = true := by
  cases hrun : beatmap.convert identity rule with
  | error refusal => rw [hrun] at h; cases h
  | ok converted =>
    rw [hrun] at h
    exact ⟨converted, rfl, h⟩

/-- What the timing of a plan shows when it is made. -/
theorem Plan.IsFor.of_timing {plan : Plan} {beatmap : Beatmap} (hplan : plan.IsFor beatmap)
    (p : Timing → Bool)
    (h : (Timing.ofPoints? Plan.alignmentOffset beatmap.timingPoints.toList).any (fun made => p made.1) = true) :
    p plan.timing = true := by
  rw [hplan.timing] at h
  exact h

/-- What the layout of a plan shows when it is made. -/
theorem Plan.IsFor.of_layout {plan : Plan} {beatmap : Beatmap} (hplan : plan.IsFor beatmap)
    (p : LaneLayout → Bool) (h : (LaneLayout.ofKeyCount? beatmap.difficulty.keyCount).any p = true) :
    p plan.layout = true := by
  rw [hplan.layout] at h
  exact h

/-- A beatmap of seven keys with nothing but timing points and hit objects. -/
def Beatmap.sevenKeys (timingPoints : Array TimingPoint) (hitObjects : Array HitObject) : Beatmap where
  general := { mode := Plan.maniaMode }
  difficulty := { circleSize := 7 }
  timingPoints := timingPoints
  hitObjects := hitObjects

/-- A beatmap whose records share milliseconds: a scroll point and a video, a
tempo point and the end of a measure, a sample and a hold note. Of its samples
one has no file. -/
def Beatmap.overlapping : Beatmap :=
  { sevenKeys
      #[{ time := 0, beatLength := 500 }, { time := 1000, beatLength := -50, definesTempo := false },
        { time := 4000, beatLength := 250 }]
      #[{ x := 36, y := 192, time := 2000, typeFlags := 1, hitSound := 0, params := [] },
        { x := 36, y := 192, time := 5000, typeFlags := 128, hitSound := 0, params := ["5500"] }] with
    events := #[⟨.media .video, 1000, ["intro.mp4"]⟩, ⟨.media .sample, 5000, ["0", "clap.wav"]⟩,
      ⟨.media .sample, 600, ["0"]⟩] }

end ManiaChart
