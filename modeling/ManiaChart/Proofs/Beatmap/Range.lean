/-
The numbers of a beatmap are in range: whatever the source, the times of its
records fit the 32-bit signed range and its beat lengths are finite
(`Beatmap.inRange_read`).

Most of it is the work of the fields, each of which checks the number it reads.
What remains is that records are made of nothing but such fields
(`Entry.inRange_ofLine`), and that a line with a problem leaves no record
(`Beatmap.Reading.inRange_step`).
-/
import ManiaChart.Beatmap.Reading

namespace ManiaChart

theorem bind_eq_ok {ε α β : Type} {first : Except ε α} {next : α → Except ε β} {result : β} :
    first.bind next = .ok result ↔ ∃ read, first = .ok read ∧ next read = .ok result := by
  cases first <;> simp [Except.bind]

theorem map_eq_ok {ε α β : Type} {f : α → β} {first : Except ε α} {result : β} :
    first.map f = .ok result ↔ ∃ read, first = .ok read ∧ f read = result := by
  cases first <;> simp [Except.map]

/-! ## Fields -/

namespace Field

/-- Whether a whole number fits the 32-bit signed range. -/
def Int32 (n : Int) : Prop := int32Min ≤ n ∧ n ≤ int32Max

/-- Whether a time lies in the 32-bit signed range, its fraction kept. -/
def Int32Time (time : Binary64) : Prop := Binary64.ofInt int32Min ≤ time ∧ time ≤ Binary64.ofInt int32Max

variable {name : String} {value : List Char}

theorem eq_some_of_orInvalid {α : Type} {read? : Option α} {read : α}
    (h : orInvalid name value read? = .ok read) : read? = some read := by
  cases read? with
  | none => cases h
  | some other => rw [Except.ok.inj h]

theorem int32_of_integer {n : Int} (h : integer name value = .ok n) : Int32 n := by
  obtain ⟨-, hrange⟩ := Option.filter_eq_some_iff.1 (eq_some_of_orInvalid h)
  have hboth := of_decide_eq_true hrange
  exact hboth

theorem isFinite_of_finite? {read : Binary64} (h : finite? value = some read) : read.isFinite = true :=
  (Option.filter_eq_some_iff.1 h).2

theorem isFinite_of_finite {read : Binary64} (h : finite name value = .ok read) : read.isFinite = true :=
  isFinite_of_finite? (eq_some_of_orInvalid h)

theorem int32Time_of_milliseconds {time : Binary64} (h : milliseconds name value = .ok time) :
    time.isFinite = true ∧ Int32Time time := by
  obtain ⟨hread, hrange⟩ := Option.filter_eq_some_iff.1 (eq_some_of_orInvalid h)
  have hboth := of_decide_eq_true hrange
  exact ⟨isFinite_of_finite? hread, hboth⟩

end Field

/-! ## Records -/

def Event.InRange (event : Event) : Prop := Field.Int32 event.startTime

structure TimingPoint.InRange (point : TimingPoint) : Prop where
  finite_time : point.time.isFinite = true
  time : Field.Int32Time point.time
  finite_beatLength : point.beatLength.isFinite = true

structure HitObject.InRange (object : HitObject) : Prop where
  x : Field.Int32 object.x
  y : Field.Int32 object.y
  time : Field.Int32 object.time

theorem Event.inRange_ofLine {line : String} {event : Event} (h : ofLine line = .ok (some event)) :
    event.InRange := by
  unfold ofLine at h
  split at h
  next kind startTime params hfields =>
    dsimp only at h
    split at h
    next startTime hstart =>
      cases h
      exact Field.int32_of_integer hstart
    · cases h
    · cases h
  · cases h

theorem TimingPoint.inRange_ofLine {line : String} {point : TimingPoint} (h : ofLine line = .ok point) :
    point.InRange := by
  unfold ofLine at h
  split at h
  next time beatLength rest hfields =>
    obtain ⟨time, htime, h⟩ := bind_eq_ok.1 h
    obtain ⟨beatLength, hbeatLength, h⟩ := bind_eq_ok.1 h
    obtain ⟨meter, -, h⟩ := bind_eq_ok.1 h
    obtain ⟨sampleSet, -, h⟩ := bind_eq_ok.1 h
    obtain ⟨sampleIndex, -, h⟩ := bind_eq_ok.1 h
    obtain ⟨volume, -, h⟩ := bind_eq_ok.1 h
    obtain ⟨uninherited, -, h⟩ := bind_eq_ok.1 h
    obtain ⟨effects, -, h⟩ := bind_eq_ok.1 h
    cases h
    obtain ⟨hfinite, hrange⟩ := Field.int32Time_of_milliseconds htime
    exact ⟨hfinite, hrange, Field.isFinite_of_finite hbeatLength⟩
  · cases h

theorem HitObject.inRange_ofLine {line : String} {object : HitObject} (h : ofLine line = .ok object) :
    object.InRange := by
  unfold ofLine at h
  split at h
  next x y time typeFlags rest hfields =>
    obtain ⟨typeFlags, -, h⟩ := bind_eq_ok.1 h
    obtain ⟨x, hx, h⟩ := bind_eq_ok.1 h
    obtain ⟨y, hy, h⟩ := bind_eq_ok.1 h
    obtain ⟨time, htime, h⟩ := bind_eq_ok.1 h
    obtain ⟨hitSound, -, h⟩ := bind_eq_ok.1 h
    cases h
    exact ⟨Field.int32_of_integer hx, Field.int32_of_integer hy, Field.int32_of_integer htime⟩
  · cases h

/-- Whether what a line says is in range. -/
def Entry.InRange : Entry → Prop
  | .event record => record.InRange
  | .timingPoint record => record.InRange
  | .hitObject record => record.InRange
  | _ => True

namespace Entry

variable {key line : String} {value : List Char} {entry : Entry}

theorem inRange_ofPair (read : String → List Char → Except LineProblem Entry)
    (hread : ∀ key value entry, read key value = .ok entry → entry.InRange)
    (h : ofPair read line = .ok entry) : entry.InRange := by
  unfold ofPair at h
  split at h
  · exact hread _ _ _ h
  · cases h

theorem inRange_ofGeneral (h : ofGeneral key value = .ok entry) : entry.InRange := by
  unfold ofGeneral at h
  split at h
  · cases h
    trivial
  · obtain ⟨read, -, rfl⟩ := map_eq_ok.1 h
    trivial
  · cases h
    trivial

theorem inRange_ofMetadata (h : ofMetadata key value = .ok entry) : entry.InRange := by
  unfold ofMetadata at h
  obtain rfl := Except.ok.inj h
  split <;> trivial

theorem inRange_ofDifficulty (h : ofDifficulty key value = .ok entry) : entry.InRange := by
  unfold ofDifficulty at h
  split at h
  · obtain ⟨read, -, rfl⟩ := map_eq_ok.1 h
    trivial
  · cases h
    trivial

theorem inRange_ofLine {sect : Section} (h : ofLine sect line = .ok entry) : entry.InRange := by
  cases sect with
  | general => exact inRange_ofPair ofGeneral (fun _ _ _ => inRange_ofGeneral) h
  | metadata => exact inRange_ofPair ofMetadata (fun _ _ _ => inRange_ofMetadata) h
  | difficulty => exact inRange_ofPair ofDifficulty (fun _ _ _ => inRange_ofDifficulty) h
  | events =>
    simp only [ofLine] at h
    split at h
    · cases h
      trivial
    · obtain ⟨read, hread, rfl⟩ := map_eq_ok.1 h
      cases read with
      | none => trivial
      | some read => exact Event.inRange_ofLine hread
  | timingPoints =>
    obtain ⟨point, hpoint, rfl⟩ := map_eq_ok.1 h
    exact TimingPoint.inRange_ofLine hpoint
  | hitObjects =>
    obtain ⟨object, hobject, rfl⟩ := map_eq_ok.1 h
    exact HitObject.inRange_ofLine hobject
  | ignored =>
    cases h
    trivial

end Entry

/-! ## Beatmaps -/

namespace Beatmap

structure InRange (beatmap : Beatmap) : Prop where
  events : ∀ event ∈ beatmap.events, event.InRange
  timingPoints : ∀ point ∈ beatmap.timingPoints, point.InRange
  hitObjects : ∀ object ∈ beatmap.hitObjects, object.InRange

theorem InRange.enter {beatmap : Beatmap} {entry : Entry} (h : beatmap.InRange) (hentry : entry.InRange) :
    (beatmap.enter entry).InRange := by
  cases entry with
  | event event =>
    refine ⟨fun other hmem => ?_, h.timingPoints, h.hitObjects⟩
    rcases Array.mem_push.1 hmem with hmem | rfl
    · exact h.events other hmem
    · exact hentry
  | timingPoint point =>
    refine ⟨h.events, fun other hmem => ?_, h.hitObjects⟩
    rcases Array.mem_push.1 hmem with hmem | rfl
    · exact h.timingPoints other hmem
    · exact hentry
  | hitObject object =>
    refine ⟨h.events, h.timingPoints, fun other hmem => ?_⟩
    rcases Array.mem_push.1 hmem with hmem | rfl
    · exact h.hitObjects other hmem
    · exact hentry
  | _ => exact ⟨h.events, h.timingPoints, h.hitObjects⟩

theorem Reading.inRange_step {reading : Reading} {line : Located Line} (h : reading.beatmap.InRange) :
    (reading.step line).beatmap.InRange := by
  unfold step
  split
  · exact ⟨h.events, h.timingPoints, h.hitObjects⟩
  · split <;> exact h
  · split
    · exact h
    · split
      next entry hentry => exact h.enter (Entry.inRange_ofLine hentry)
      · exact h

theorem inRange_ofLines {lines : List (Located Line)} {reading : Reading} (h : reading.beatmap.InRange) :
    (lines.foldl Reading.step reading).beatmap.InRange := by
  induction lines generalizing reading with
  | nil => exact h
  | cons line rest ih => exact ih (Reading.inRange_step h)

/-- **The numbers of a beatmap are in range**, whatever its source. -/
theorem inRange_read (source : String) : (read source).beatmap.InRange := by
  refine inRange_ofLines ⟨fun event hmem => ?_, fun point hmem => ?_, fun object hmem => ?_⟩ <;>
    simp at hmem

end Beatmap

end ManiaChart
