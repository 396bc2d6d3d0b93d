/-
Taking out a hit object that places nothing: one at a negative time, or a hold
note whose tail cannot be read. What is reported of the object goes with it, and
the notes of the chart stay (`Beatmap.notes_withObjects`). Such an object still
ends the last measure when it is the last one of the file, and that is all it
can do to a chart.
-/
import ManiaChart.Proofs.Conversion.Accounting
import ManiaChart.Proofs.Conversion.Alike

namespace ManiaChart

/-! ## Beatmaps with other hit objects -/

/-- A beatmap with other hit objects. -/
def Beatmap.withObjects (beatmap : Beatmap) (objects : List HitObject) : Beatmap :=
  { beatmap with hitObjects := objects.toArray }

variable {beatmap : Beatmap} {front rest : List HitObject} {object : HitObject}

theorem Beatmap.notes_withObjects (rule : LongNoteRule) (hnothing : object.PlacesNothing) :
    (beatmap.withObjects (front ++ object :: rest)).notes rule =
      (beatmap.withObjects (front ++ rest)).notes rule := by
  have hsounds : (beatmap.withObjects (front ++ object :: rest)).soundNotes =
      (beatmap.withObjects (front ++ rest)).soundNotes := rfl
  rw [notes, notes, hsounds, withObjects, withObjects, List.foldl_append, List.foldl_append, List.foldl_cons,
    HitObject.notes_eq_nil_iff.2 hnothing, List.append_nil]

namespace Plan

variable {plan other : Plan}

/-- Other hit objects leave a plan as it is, but for the end of the last
measure. -/
theorem exists_isFor_withObjects {objects others : List HitObject}
    (h : plan.IsFor (beatmap.withObjects objects)) (hothers : others ≠ []) :
    ∃ other : Plan, other.IsFor (beatmap.withObjects others) ∧ other.layout = plan.layout ∧
      other.timing = plan.timing ∧ other.skipped = plan.skipped := by
  let stop := (others.getLast hothers).time + alignmentOffset
  refine ⟨{ plan with beatmap := beatmap.withObjects others, stop }, ⟨rfl, h.mode, h.layout, h.timing, ?_⟩,
    rfl, rfl, rfl⟩
  simp [Beatmap.withObjects, List.getLast?_eq_getLast_of_ne_nil hothers, stop]

theorem stop_withObjects {objects : List HitObject} (h : plan.IsFor (beatmap.withObjects objects)) :
    (objects.getLast?.map HitObject.time).map (· + alignmentOffset) = some plan.stop := by
  rw [← h.stop, Beatmap.withObjects, List.back?_toArray, Option.map_map]
  rfl

/-- Measures end together when the last objects have the same time. -/
theorem stop_eq_of_getLast? {objects others : List HitObject} (h : plan.IsFor (beatmap.withObjects objects))
    (h' : other.IsFor (beatmap.withObjects others))
    (hlast : others.getLast?.map HitObject.time = objects.getLast?.map HitObject.time) : other.stop = plan.stop := by
  refine Option.some.inj ?_
  rw [← stop_withObjects h', hlast, stop_withObjects h]

/-- Unless it is the last one, an object does not end the last measure. -/
theorem getLast?_withObjects (hsame : rest ≠ [] ∨ front.getLast?.map HitObject.time = some object.time) :
    (front ++ rest).getLast?.map HitObject.time = (front ++ object :: rest).getLast?.map HitObject.time := by
  cases rest with
  | nil => simpa using hsame
  | cons next more => simp [List.getLast?_append]

theorem placements_withObjects {objects : List HitObject}
    (h : plan.IsFor (beatmap.withObjects objects)) :
    plan.placements = objects.map (Placement.ofObject plan.layout alignmentOffset) := by
  rw [placements, h.source, Beatmap.withObjects]

/-- An object that places nothing leaves no placement, or one of nothing. -/
theorem filter_placed_withObjects {keyCount : Nat} {layout : LaneLayout}
    (h : LaneLayout.ofKeyCount? keyCount = some layout) (hnothing : object.PlacesNothing) :
    (((front ++ object :: rest).map (Placement.ofObject layout alignmentOffset)).filterMap
        Except.toOption).filter (· ≠ .skipped) =
      (((front ++ rest).map (Placement.ofObject layout alignmentOffset)).filterMap Except.toOption).filter
        (· ≠ .skipped) := by
  simp only [List.map_append, List.map_cons, List.filterMap_append, List.filter_append]
  congr 1
  cases hobject : Placement.ofObject layout alignmentOffset object with
  | error omission => rfl
  | ok placement =>
    obtain rfl := Placement.eq_skipped_of_placesNothing h hnothing hobject
    rfl

theorem akin_withObjects {objects others : List HitObject} (h : plan.IsFor (beatmap.withObjects objects))
    (h' : other.IsFor (beatmap.withObjects others)) (hlayout : other.layout = plan.layout)
    (htiming : other.timing = plan.timing) : plan.Akin other where
  layout := hlayout
  timing := htiming
  media := by
    rw [media, media, h.source, h'.source]
    rfl
  metadata := by
    rw [h.source, h'.source]
    rfl

theorem alike_withObjects (h : plan.IsFor (beatmap.withObjects (front ++ object :: rest)))
    (h' : other.IsFor (beatmap.withObjects (front ++ rest))) (hakin : plan.Akin other)
    (hnothing : object.PlacesNothing) : plan.Alike other where
  layout := hakin.layout
  timing := hakin.timing
  media := hakin.media
  metadata := hakin.metadata
  placed := by
    rw [placed, placed, placements_withObjects h, placements_withObjects h', hakin.layout]
    exact (filter_placed_withObjects h.layout hnothing).symm

/-- Only what is reported of the object itself goes. -/
theorem omissions_withObjects (h : plan.IsFor (beatmap.withObjects (front ++ object :: rest)))
    (h' : other.IsFor (beatmap.withObjects (front ++ rest))) (hlayout : other.layout = plan.layout)
    (hskipped : other.skipped = plan.skipped) :
    ∃ before after, plan.omissions = before ++ object.omission?.toList ++ after ∧
      other.omissions = before ++ after := by
  let omissionsOf (objects : List HitObject) : List Omission :=
    (objects.map (Placement.ofObject plan.layout alignmentOffset)).filterMap Omission.of?
  refine ⟨plan.skipped.map .scrollNotFinite ++ MediaEvent.omissions beatmap.events.toList ++ omissionsOf front,
    omissionsOf rest, ?_, ?_⟩
  · rw [omissions, placements_withObjects h, h.source, List.map_append, List.map_cons, List.filterMap_append,
      List.filterMap_cons, Placement.omission_ofObject h.layout]
    cases object.omission? <;> simp [omissionsOf, Beatmap.withObjects]
  · rw [omissions, placements_withObjects h', h'.source, hskipped, hlayout, List.map_append, List.filterMap_append]
    simp [omissionsOf, Beatmap.withObjects]

end Plan

/-- Whether a conversion, but for its measure lines, is another one that no longer
reports an object: the header and the notes are the same. -/
structure Converted.Drops (converted reduced : Converted) (object : HitObject) : Prop where
  omissions : ∃ before after, converted.omissions = before ++ object.omission?.toList ++ after ∧
    reduced.omissions = before ++ after
  header : reduced.chart.header = converted.chart.header
  notes : reduced.chart.notes.all.map Note.unmeasured = converted.chart.notes.all.map Note.unmeasured

/-- **Objects that place nothing.** Without one a beatmap is still converted,
with all its notes, and only the report of the object goes. The chart is the same
unless the object is the last of the file, stands at a time of its own and so
ends the last measure; then the timelines are the same where measure lines leave
the same values, and the charts are equal exactly when that is everywhere. -/
theorem Beatmap.convert_withObjects {identity : Chart.Identity} {rule : LongNoteRule} {converted : Converted}
    (h : (beatmap.withObjects (front ++ object :: rest)).convert identity rule = .ok converted)
    (hnothing : object.PlacesNothing) (hother : front ++ rest ≠ []) :
    ∃ (reduced : Converted) (plan other : Plan),
      (beatmap.withObjects (front ++ rest)).convert identity rule = .ok reduced ∧
      plan.IsFor (beatmap.withObjects (front ++ object :: rest)) ∧
      other.IsFor (beatmap.withObjects (front ++ rest)) ∧
      converted.Drops reduced object ∧
      (∀ timeline, other.drawnAt timeline.milliTime = plan.drawnAt timeline.milliTime →
        (timeline ∈ reduced.chart.timelines ↔ timeline ∈ converted.chart.timelines)) ∧
      (reduced.chart = converted.chart ↔ ∀ t, other.drawnAt t = plan.drawnAt t) ∧
      (rest ≠ [] ∨ front.getLast?.map HitObject.time = some object.time → reduced.chart = converted.chart) := by
  obtain ⟨plan, hplan, rfl⟩ := convert_eq_ok_iff.1 h
  obtain ⟨other, hplan', hlayout, htiming, hskipped⟩ := Plan.exists_isFor_withObjects hplan hother
  have hakin := Plan.akin_withObjects hplan hplan' hlayout htiming
  have halike := Plan.alike_withObjects hplan hplan' hakin hnothing
  refine ⟨_, plan, other, convert_eq_ok_iff.2 ⟨other, hplan', rfl⟩, hplan, hplan', ⟨?_, ?_, ?_⟩,
    fun timeline hdrawn => halike.mem_timelines_iff hplan hplan' hdrawn, halike.chart_eq_iff hplan hplan', ?_⟩
  · exact Plan.omissions_withObjects hplan hplan' hlayout hskipped
  · exact hakin.header rule
  · exact (Plan.map_unmeasured_draft hplan' rule).trans
      ((notes_withObjects rule hnothing).symm.trans (Plan.map_unmeasured_draft hplan rule).symm)
  · intro hsame
    have hstop := Plan.stop_eq_of_getLast? hplan hplan' (Plan.getLast?_withObjects hsame)
    exact halike.chart_eq hplan hplan' fun t => hakin.drawnAt hstop halike.noteAt

/-- A note hit once, on the first column. -/
def HitObject.tap (time : Int) : HitObject :=
  { x := 36, y := 192, time, typeFlags := 1, hitSound := 0, params := [] }

/-- A hold note on the first column whose tail is missing. -/
def HitObject.endless (time : Int) : HitObject :=
  { x := 36, y := 192, time, typeFlags := 128, hitSound := 0, params := [] }

/-- A beatmap of one tempo, whose measures are two seconds long. -/
def Beatmap.steady : Beatmap := sevenKeys #[{ time := 0, beatLength := 500 }] #[]

/-- Before another object, the hold note ends no measure. -/
theorem Beatmap.convert_withObjects_steady :
    ∃ converted,
      (steady.withObjects ([.tap 1000] ++ .endless 5000 :: [.tap 2000])).convert ⟨"", "", ""⟩ .longNote =
        .ok converted ∧
      converted.omissions = [.unreadableTail 5000 ""] ∧ (HitObject.endless 5000).PlacesNothing ∧
      [HitObject.tap 1000] ++ [.tap 2000] ≠ [] ∧
      ∃ (reduced : Converted) (plan other : Plan),
        (steady.withObjects ([.tap 1000] ++ [.tap 2000])).convert ⟨"", "", ""⟩ .longNote = .ok reduced ∧
        plan.IsFor (steady.withObjects ([.tap 1000] ++ .endless 5000 :: [.tap 2000])) ∧
        other.IsFor (steady.withObjects ([.tap 1000] ++ [.tap 2000])) ∧
        converted.Drops reduced (.endless 5000) ∧
        (∀ timeline, other.drawnAt timeline.milliTime = plan.drawnAt timeline.milliTime →
          (timeline ∈ reduced.chart.timelines ↔ timeline ∈ converted.chart.timelines)) ∧
        (reduced.chart = converted.chart ↔ ∀ t, other.drawnAt t = plan.drawnAt t) ∧
        ([HitObject.tap 2000] ≠ [] ∨
          [HitObject.tap 1000].getLast?.map HitObject.time = some (HitObject.endless 5000).time →
          reduced.chart = converted.chart) := by
  obtain ⟨converted, h, homissions⟩ := exists_convert
    (steady.withObjects ([.tap 1000] ++ .endless 5000 :: [.tap 2000])) ⟨"", "", ""⟩ .longNote
    (fun converted => converted.omissions = [.unreadableTail 5000 ""]) (by decide +kernel)
  have hnothing : (HitObject.endless 5000).PlacesNothing := by decide
  have hother : [HitObject.tap 1000] ++ [.tap 2000] ≠ [] := by decide
  exact ⟨converted, h, by simpa using homissions, hnothing, hother, convert_withObjects h hnothing hother⟩

/-- At the end of the file, the same hold note draws two lines behind the last
note. -/
theorem Beatmap.not_convert_withObjects_steady :
    ∃ converted reduced,
      (steady.withObjects ([.tap 1000] ++ .endless 5000 :: [])).convert ⟨"", "", ""⟩ .longNote = .ok converted ∧
      (steady.withObjects ([.tap 1000] ++ [])).convert ⟨"", "", ""⟩ .longNote = .ok reduced ∧
      (HitObject.endless 5000).PlacesNothing ∧
      converted.chart.timelines.map Timeline.milliTime = [0, 38, 1038, 2038, 4038] ∧
      reduced.chart.timelines.map Timeline.milliTime = [0, 38, 1038] ∧
      reduced.chart ≠ converted.chart := by
  obtain ⟨converted, h, htimes⟩ := exists_convert
    (steady.withObjects ([.tap 1000] ++ .endless 5000 :: [])) ⟨"", "", ""⟩ .longNote
    (fun converted => converted.chart.timelines.map Timeline.milliTime = [0, 38, 1038, 2038, 4038])
    (by decide +kernel)
  obtain ⟨reduced, h', htimes'⟩ := exists_convert
    (steady.withObjects ([.tap 1000] ++ [])) ⟨"", "", ""⟩ .longNote
    (fun reduced => reduced.chart.timelines.map Timeline.milliTime = [0, 38, 1038]) (by decide +kernel)
  rw [decide_eq_true_eq] at htimes htimes'
  refine ⟨converted, reduced, h, h', by decide, htimes, htimes', fun hchart => ?_⟩
  rw [hchart, htimes] at htimes'
  cases htimes'

end ManiaChart
