/-
The grammar of record lines. A timing point or a hit object is read exactly when
its line has enough fields and each field meets its condition; the conditions
stand in the order they are checked, and of several that are violated the first
one is reported (`Accepts`).

Both readers check one field after the other, so each is followed check by check
(`Checks.bind`), with what is read and what is reported side by side.
-/
import ManiaChart.Proofs.Beatmap.Fields

namespace ManiaChart

/-! ## Conditions -/

/-- A condition on the text of a field. -/
structure Condition where
  name : String
  text : List Char
  Holds : Prop

/-- The problem of a violated condition. -/
def Condition.problem (condition : Condition) : LineProblem :=
  .notANumber condition.name (String.ofList condition.text)

/-- That a text is one of a field's numbers. -/
def Condition.reads {α : Type} (name : String) (text : List Char) (Reads : List Char → α → Prop) : Condition :=
  ⟨name, text, ∃ value, Reads text value⟩

/-- Whether a problem is that of the first condition violated. -/
inductive FirstViolated : List Condition → LineProblem → Prop
  | here {condition : Condition} {rest : List Condition} :
      ¬condition.Holds → FirstViolated (condition :: rest) condition.problem
  | later {condition : Condition} {rest : List Condition} {problem : LineProblem} :
      condition.Holds → FirstViolated rest problem → FirstViolated (condition :: rest) problem

theorem firstViolated_cons_iff {condition : Condition} {rest : List Condition} {problem : LineProblem} :
    FirstViolated (condition :: rest) problem ↔
      ¬condition.Holds ∧ problem = condition.problem ∨ condition.Holds ∧ FirstViolated rest problem := by
  refine ⟨?_, ?_⟩
  · intro h
    cases h with
    | here hnot => exact .inl ⟨hnot, rfl⟩
    | later hholds hrest => exact .inr ⟨hholds, hrest⟩
  · intro h
    rcases h with ⟨hnot, rfl⟩ | ⟨hholds, hrest⟩
    · exact .here hnot
    · exact .later hholds hrest

theorem exists_firstViolated_iff {conditions : List Condition} :
    (∃ problem, FirstViolated conditions problem) ↔ ¬∀ condition ∈ conditions, condition.Holds := by
  induction conditions with
  | nil =>
    refine ⟨?_, fun h => absurd (fun _ => nofun) h⟩
    intro h
    obtain ⟨problem, h⟩ := h
    cases h
  | cons condition rest ih =>
    simp only [firstViolated_cons_iff, exists_or, exists_and_left, ih, exists_eq, and_true, List.forall_mem_cons]
    tauto

/-! ## Checking one field after the other -/

section

variable {α β : Type} {conditions rest : List Condition} {Means : α → Prop} {result : Except LineProblem α}

/-- Whether a result is a record that the fields mean, or the problem of the
first condition they violate. -/
structure Checks (conditions : List Condition) (Means : α → Prop) (result : Except LineProblem α) : Prop where
  ok : ∀ record, result = .ok record ↔ Means record
  error : ∀ problem, result = .error problem ↔ FirstViolated conditions problem

theorem Checks.pure (record : α) : Checks [] (record = ·) (.ok record) :=
  ⟨fun other => by rw [Except.ok.injEq], fun problem => ⟨nofun, nofun⟩⟩

/-- What is checked first comes first among the conditions. -/
theorem Checks.bind {name : String} {text : List Char} {Reads : List Char → β → Prop} {Means : β → α → Prop}
    {first : Except LineProblem β} {next : β → Except LineProblem α}
    (hfirst : Field.ReadsAs name text (Reads text) first) (hnext : ∀ value, Checks rest (Means value) (next value)) :
    Checks (.reads name text Reads :: rest) (fun record => ∃ value, Reads text value ∧ Means value record)
      (first.bind next) := by
  refine ⟨fun record => by simp only [bind_eq_ok, hfirst.ok, (hnext _).ok], fun problem => ?_⟩
  have hholds : (Condition.reads name text Reads).Holds ↔ ∃ value, first = .ok value :=
    exists_congr fun value => (hfirst.ok value).symm
  rw [firstViolated_cons_iff, hholds]
  cases hresult : first with
  | error found =>
    have hfound : found = (Condition.reads name text Reads).problem := hfirst.error found hresult
    simp [Except.bind, hfound, eq_comm]
  | ok value => simp [Except.bind, (hnext value).error]

theorem Checks.means {Means' : α → Prop} (h : Checks conditions Means result)
    (hmeans : ∀ record, Means record ↔ Means' record) : Checks conditions Means' result :=
  ⟨fun record => (h.ok record).trans (hmeans record), h.error⟩

theorem Checks.exists_ok_iff (h : Checks conditions Means result) :
    (∃ record, result = .ok record) ↔ ∀ condition ∈ conditions, condition.Holds := by
  have hviolated : (∃ problem, result = .error problem) ↔ ¬∀ condition ∈ conditions, condition.Holds := by
    simp only [h.error, exists_firstViolated_iff]
  cases result with
  | error problem => simpa using hviolated
  | ok record => simpa using hviolated

/-! ## Records -/

/-- Whether reading a line gives a record exactly when its fields are as many as
expected and meet their conditions, and the first problem otherwise. -/
structure Accepts (expected : Nat) (fields : List (List Char)) (conditions : List Condition) (Means : α → Prop)
    (result : Except LineProblem α) : Prop where
  accepted : (∃ record, result = .ok record) ↔
    expected ≤ fields.length ∧ ∀ condition ∈ conditions, condition.Holds
  read : ∀ record, result = .ok record ↔ expected ≤ fields.length ∧ Means record
  problem : ∀ problem, result = .error problem ↔
    fields.length < expected ∧ problem = .tooFewFields expected fields.length ∨
      expected ≤ fields.length ∧ FirstViolated conditions problem

variable {expected : Nat} {fields : List (List Char)}

theorem Checks.accepts (hcount : expected ≤ fields.length) (h : Checks conditions Means result) :
    Accepts expected fields conditions Means result := by
  refine ⟨?_, fun record => ?_, fun problem => ?_⟩
  · rw [h.exists_ok_iff]
    simp [hcount]
  · simp [h.ok, hcount]
  · simp [h.error, hcount, Nat.not_lt.2 hcount]

theorem accepts_tooFew (hcount : fields.length < expected) :
    Accepts expected fields conditions Means (.error (.tooFewFields expected fields.length)) := by
  refine ⟨?_, fun record => ?_, fun problem => ?_⟩
  · simp [Nat.not_le.2 hcount]
  · simp [Nat.not_le.2 hcount]
  · simp [hcount, Nat.not_le.2 hcount, eq_comm]

end

namespace TimingPoint

open ManiaChart.Field

/-- The conditions on the fields of a timing point, in the order they are
checked. -/
def conditions (fields : List (List Char)) : List Condition :=
  [.reads "timing point time" (textAt fields 0) Time,
    .reads "beat length" (textAt fields 1) Finite,
    .reads "meter" (textAt fields 2) (CountOr 4),
    .reads "sample set" (textAt fields 3) (CountOr 0),
    .reads "sample index" (textAt fields 4) (CountOr 0),
    .reads "volume" (textAt fields 5) (CountOr 100),
    .reads "uninherited flag" (textAt fields 6) (CountOr 1),
    .reads "effects" (textAt fields 7) (CountOr 0)]

/-- Whether a timing point is the one that fields write. -/
structure Written (fields : List (List Char)) (point : TimingPoint) : Prop where
  time : Time (textAt fields 0) point.time
  beatLength : Finite (textAt fields 1) point.beatLength
  meter : CountOr 4 (textAt fields 2) point.meter
  sampleSet : CountOr 0 (textAt fields 3) point.sampleSet
  sampleIndex : CountOr 0 (textAt fields 4) point.sampleIndex
  volume : CountOr 100 (textAt fields 5) point.volume
  definesTempo : ∃ flag, CountOr 1 (textAt fields 6) flag ∧ (point.definesTempo = true ↔ flag ≠ 0)
  effects : CountOr 0 (textAt fields 7) point.effects

theorem accepts_ofLine (line : String) :
    Accepts 2 (split line) (conditions (split line)) (Written (split line)) (ofLine line) := by
  have htrim : ∀ text ∈ split line, Text.trim text = text := trim_of_mem_split
  unfold ofLine
  split
  next time beatLength rest hfields =>
    rw [hfields] at htrim ⊢
    obtain ⟨htime, hlength, hrest⟩ := (List.forall_mem_cons.1 htrim).imp_right List.forall_mem_cons.1
    have hchecks := Checks.bind (readsAs_milliseconds htime "timing point time") fun time =>
      Checks.bind (readsAs_finite hlength "beat length") fun beatLength =>
      Checks.bind (readsAs_optional hrest 0 "meter" 4) fun meter =>
      Checks.bind (readsAs_optional hrest 1 "sample set" 0) fun sampleSet =>
      Checks.bind (readsAs_optional hrest 2 "sample index" 0) fun sampleIndex =>
      Checks.bind (readsAs_optional hrest 3 "volume" 100) fun volume =>
      Checks.bind (readsAs_optional hrest 4 "uninherited flag" 1) fun flag =>
      Checks.bind (readsAs_optional hrest 5 "effects" 0) fun effects =>
      Checks.pure (TimingPoint.mk time beatLength meter sampleSet sampleIndex volume (flag ≠ 0) effects)
    refine Checks.accepts (by simp) (hchecks.means fun point => ⟨?_, ?_⟩)
    · intro h
      obtain ⟨time, htime, beatLength, hlength, meter, hmeter, sampleSet, hset, sampleIndex, hindex, volume, hvolume,
        flag, hflag, effects, heffects, rfl⟩ := h
      exact ⟨htime, hlength, hmeter, hset, hindex, hvolume, ⟨flag, hflag, by simp⟩, heffects⟩
    · intro h
      obtain ⟨flag, hflag, htempo⟩ := h.definesTempo
      refine ⟨_, h.time, _, h.beatLength, _, h.meter, _, h.sampleSet, _, h.sampleIndex, _, h.volume, flag, hflag,
        _, h.effects, ?_⟩
      have hdefines : decide (flag ≠ 0) = point.definesTempo := by
        rw [Bool.eq_iff_iff, decide_eq_true_eq, htempo]
      rw [hdefines]
  next hfields =>
    refine accepts_tooFew (Nat.lt_of_not_le fun hcount => ?_)
    rcases hsplit : split line with _ | ⟨time, _ | ⟨beatLength, rest⟩⟩
    · simp [hsplit] at hcount
    · simp [hsplit] at hcount
    · exact hfields time beatLength rest hsplit

end TimingPoint

namespace HitObject

open ManiaChart.Field

/-- The parameters of a hit object: the fields after the fifth. The first one of
a hold note is parted at its first colon. -/
inductive Params (isHold : Bool) : List (List Char) → List (List Char) → Prop
  | parted {tail sample : List Char} {rest : List (List Char)} : isHold = true → ':' ∉ tail →
      Params isHold ((tail ++ ':' :: sample) :: rest) (tail :: sample :: rest)
  | whole {fields : List (List Char)} : (isHold = true → ∀ first ∈ fields.head?, ':' ∉ first) →
      Params isHold fields fields

theorem params_splitParams (typeFlags : Nat) (fields : List (List Char)) :
    Params (isHoldType typeFlags) fields (splitParams typeFlags fields) := by
  cases fields with
  | nil => exact .whole fun _ => nofun
  | cons first rest =>
    cases hhold : isHoldType typeFlags with
    | false =>
      simp only [splitParams, hhold]
      exact .whole nofun
    | true =>
      cases hcut : Text.cut? ':' first with
      | none =>
        simp only [splitParams, hhold, hcut]
        refine .whole fun _ text htext => ?_
        cases htext
        exact Text.cut?_eq_none_iff.1 hcut
      | some parts =>
        obtain ⟨rfl, htail⟩ := Text.cut?_eq_some_iff.1 hcut
        simp only [splitParams, hhold, hcut]
        exact .parted rfl htail

example : splitParams 128 ["900:0:1".toList, "2".toList] = ["900".toList, "0:1".toList, "2".toList] := rfl

theorem Params.eq {typeFlags : Nat} {fields params : List (List Char)}
    (h : Params (isHoldType typeFlags) fields params) : params = splitParams typeFlags fields := by
  cases h with
  | parted hhold htail => simp only [splitParams, hhold, Text.cut?_append htail]
  | whole hkept =>
    cases fields with
    | nil => rfl
    | cons first rest =>
      cases hhold : isHoldType typeFlags with
      | false => simp only [splitParams, hhold]
      | true => simp only [splitParams, hhold, Text.cut?_of_not_mem (hkept hhold first rfl)]

/-- The conditions on the fields of a hit object, in the order they are
checked. -/
def conditions (fields : List (List Char)) : List Condition :=
  [.reads "object type" (textAt fields 3) Count,
    .reads "x" (textAt fields 0) Whole,
    .reads "y" (textAt fields 1) Whole,
    .reads "hit object time" (textAt fields 2) Whole,
    .reads "hit sound" (textAt fields 4) (CountOr 0)]

/-- Whether a hit object is the one that fields write. -/
structure Written (fields : List (List Char)) (object : HitObject) : Prop where
  x : Whole (textAt fields 0) object.x
  y : Whole (textAt fields 1) object.y
  time : Whole (textAt fields 2) object.time
  typeFlags : Count (textAt fields 3) object.typeFlags
  hitSound : CountOr 0 (textAt fields 4) object.hitSound
  params : ∃ params, Params object.isHold (fields.drop 5) params ∧ object.params = params.map String.ofList

theorem accepts_ofLine (line : String) :
    Accepts 4 (split line) (conditions (split line)) (Written (split line)) (ofLine line) := by
  have htrim : ∀ text ∈ split line, Text.trim text = text := trim_of_mem_split
  unfold ofLine
  split
  next x y time typeFlags rest hfields =>
    rw [hfields] at htrim ⊢
    simp only [List.forall_mem_cons] at htrim
    obtain ⟨hx, hy, htime, hflags, hrest⟩ := htrim
    rw [List.head?_eq_getElem?, ← List.drop_one]
    have hchecks := Checks.bind (readsAs_natural hflags "object type") fun typeFlags =>
      Checks.bind (readsAs_integer hx "x") fun x =>
      Checks.bind (readsAs_integer hy "y") fun y =>
      Checks.bind (readsAs_integer htime "hit object time") fun time =>
      Checks.bind (readsAs_optional hrest 0 "hit sound" 0) fun hitSound =>
      Checks.pure (HitObject.mk x y time typeFlags hitSound ((splitParams typeFlags (rest.drop 1)).map String.ofList))
    refine Checks.accepts (by simp) (hchecks.means fun object => ⟨?_, ?_⟩)
    · intro h
      obtain ⟨typeFlags, hflags, x, hx, y, hy, time, htime, hitSound, hsound, rfl⟩ := h
      exact ⟨hx, hy, htime, hflags, hsound, _, params_splitParams .., rfl⟩
    · intro h
      obtain ⟨params, hparams, heq⟩ := h.params
      refine ⟨_, h.typeFlags, _, h.x, _, h.y, _, h.time, _, h.hitSound, ?_⟩
      have hsplit : params = splitParams object.typeFlags (rest.drop 1) := hparams.eq
      rw [← hsplit, ← heq]
  next hfields =>
    refine accepts_tooFew (Nat.lt_of_not_le fun hcount => ?_)
    rcases hsplit : split line with _ | ⟨x, _ | ⟨y, _ | ⟨time, _ | ⟨typeFlags, rest⟩⟩⟩⟩
    · simp [hsplit] at hcount
    · simp [hsplit] at hcount
    · simp [hsplit] at hcount
    · simp [hsplit] at hcount
    · exact hfields x y time typeFlags rest hsplit

end HitObject

/-- **The grammar of record lines.** Timing points and hit objects are read from
exactly the lines whose fields meet their conditions, with the values that the
fields write; of any other line the first condition violated is reported, or
that there are too few fields. -/
theorem accepts_recordLines (line : String) :
    Accepts 2 (Field.split line) (TimingPoint.conditions (Field.split line)) (TimingPoint.Written (Field.split line))
        (TimingPoint.ofLine line) ∧
      Accepts 4 (Field.split line) (HitObject.conditions (Field.split line)) (HitObject.Written (Field.split line))
        (HitObject.ofLine line) :=
  ⟨TimingPoint.accepts_ofLine line, HitObject.accepts_ofLine line⟩

end ManiaChart
