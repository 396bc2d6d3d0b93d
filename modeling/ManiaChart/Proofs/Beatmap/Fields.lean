/-
The grammar of the fields of record lines (`Field.Finite`, `Field.Time`,
`Field.Whole`, `Field.Count`). Each reader accepts the texts its grammar
derives, with the value derived, and names its field and text otherwise
(`Field.ReadsAs`).

A whole number within 32 bits is also read as a decimal number, and then comes
out the same (`Field.whole?_eq_some_iff`); so whole numbers and decimal numbers
are told apart by the reader of a field and by nothing that reads it.
-/
import ManiaChart.Proofs.Beatmap.Range
import ManiaChart.Proofs.Binary64.Order
import ManiaChart.Proofs.Text.Numerals

namespace ManiaChart

theorem Binary64.toInt64_zero (negative : Bool) : (zero negative).toInt64 = 0 := by
  cases negative <;> simp only [zero, toInt64, toIntWithin, Nat.zero_div] <;> decide

/-- Whole numbers past 32 bits do not round into 32 bits. -/
theorem Binary64.toInt64_ofInt_eq_iff {m n : Int} (hn : Field.Int32 n) : (ofInt m).toInt64 = n ↔ m = n := by
  have hbounds : -0x80000000 ≤ n ∧ n ≤ 0x7fffffff := hn
  refine ⟨fun h => ?_, fun h => h ▸ toInt64_ofInt (by omega)⟩
  by_cases hlow : m ≤ -0x80000001
  · have hround := toInt64_mono (ofInt_le_ofInt hlow)
    rw [toInt64_ofInt (n := -0x80000001) (by decide)] at hround
    omega
  by_cases hhigh : 0x80000000 ≤ m
  · have hround := toInt64_mono (ofInt_le_ofInt hhigh)
    rw [toInt64_ofInt (n := 0x80000000) (by decide)] at hround
    omega
  · rwa [toInt64_ofInt (by omega)] at h

namespace Field

open Text

/-! ## What a field may say -/

/-- A finite number. -/
def Finite (text : List Char) (x : Binary64) : Prop := Decimal text x ∧ x.isFinite = true

/-- A finite number in the 32-bit signed range, its fraction kept. -/
def Time (text : List Char) (x : Binary64) : Prop := Finite text x ∧ Int32Time x

/-- A whole number, or the whole part of a finite one, in the 32-bit signed
range. -/
def Whole (text : List Char) (n : Int) : Prop :=
  Int32 n ∧ (Text.Whole text n ∨ ∃ x, Finite text x ∧ x.toInt64 = n)

/-- A 32-bit unsigned number. -/
def Count (text : List Char) (n : Nat) : Prop := Natural text n ∧ n < UInt32.size

/-- A 32-bit unsigned number, which an empty text leaves at its default. -/
def CountOr (default : Nat) (text : List Char) (n : Nat) : Prop := text = [] ∧ n = default ∨ Count text n

/-! ## What is read of it -/

variable {name : String} {text : List Char}

theorem finite?_eq_some_iff {x : Binary64} : finite? text = some x ↔ Finite (trim text) x := by
  rw [finite?, Option.filter_eq_some_iff, Finite]
  exact and_congr_left fun hfinite => number?_eq_some_iff hfinite

/-- Within 32 bits it makes no difference whether a number is written as a whole
one. -/
theorem whole?_eq_some_iff {n : Int} (hn : Int32 n) :
    whole? text = some n ↔ ∃ x, finite? text = some x ∧ x.toInt64 = n := by
  unfold whole?
  split
  next m hinteger =>
    obtain ⟨x, hdecimal, hx⟩ := (integer?_eq_some_iff.1 hinteger).exists_decimal
    have hvalue : x.toInt64 = n ↔ m = n := by
      rcases hx with hx | ⟨hm, negative, hx⟩
      · rw [hx, Binary64.toInt64_ofInt_eq_iff hn]
      · rw [hx, hm, Binary64.toInt64_zero]
    have hfinite : m = n → x.isFinite = true := by
      intro heq
      have hbounds : -0x80000000 ≤ n ∧ n ≤ 0x7fffffff := hn
      rcases hx with hx | ⟨-, negative, hx⟩
      · rw [hx, heq]
        exact Binary64.isFinite_ofInt (by omega)
      · rw [hx, Binary64.zero, Binary64.isFinite]
    rw [Option.some.injEq]
    refine ⟨?_, ?_⟩
    · intro h
      exact ⟨x, finite?_eq_some_iff.2 ⟨hdecimal, hfinite h⟩, hvalue.2 h⟩
    · intro h
      obtain ⟨y, hy, htrunc⟩ := h
      cases hdecimal.number?_eq.symm.trans (finite?_eq_some_iff.1 hy).1.number?_eq
      exact hvalue.1 htrunc
  next => exact Option.map_eq_some_iff

/-- Whether reading a field gives what its grammar derives, or else a problem
that names the field and its text. -/
structure ReadsAs {α : Type} (name : String) (text : List Char) (Reads : α → Prop)
    (result : Except LineProblem α) : Prop where
  ok : ∀ value, result = .ok value ↔ Reads value
  error : ∀ problem, result = .error problem → problem = .notANumber name (String.ofList text)

theorem readsAs_orInvalid {α : Type} {read? : Option α} {Reads : α → Prop}
    (h : ∀ value, read? = some value ↔ Reads value) : ReadsAs name text Reads (orInvalid name text read?) := by
  cases read? with
  | none =>
    refine ⟨fun value => ?_, fun problem hproblem => ?_⟩
    · rw [← h value]
      exact ⟨nofun, nofun⟩
    · cases hproblem
      rfl
  | some read =>
    refine ⟨fun value => ?_, nofun⟩
    rw [← h value]
    simp [orInvalid]

section

variable (htrim : trim text = text)

include htrim

theorem readsAs_natural (name : String) : ReadsAs name text (Count text) (natural UInt32.size name text) := by
  refine readsAs_orInvalid fun n => ?_
  rw [Option.filter_eq_some_iff, htrim, natural?_eq_some_iff, decide_eq_true_eq, Count]

theorem readsAs_finite (name : String) : ReadsAs name text (Finite text) (finite name text) := by
  refine readsAs_orInvalid fun x => ?_
  rw [finite?_eq_some_iff, htrim]

theorem readsAs_milliseconds (name : String) : ReadsAs name text (Time text) (milliseconds name text) := by
  refine readsAs_orInvalid fun x => ?_
  rw [Option.filter_eq_some_iff, finite?_eq_some_iff, htrim, decide_eq_true_eq, Time, Int32Time]

theorem readsAs_integer (name : String) : ReadsAs name text (Whole text) (integer name text) := by
  refine readsAs_orInvalid fun n => ?_
  rw [Option.filter_eq_some_iff, decide_eq_true_eq, ← Int32, and_comm, Whole]
  refine and_congr_right fun hn => ⟨fun h => .inr ?_, ?_⟩
  · obtain ⟨x, hx, htrunc⟩ := (whole?_eq_some_iff hn).1 h
    rw [finite?_eq_some_iff, htrim] at hx
    exact ⟨x, hx, htrunc⟩
  · intro h
    rcases h with hwhole | ⟨x, hx, htrunc⟩
    · rw [whole?, htrim, integer?_eq_some_iff.2 hwhole]
    · exact (whole?_eq_some_iff hn).2 ⟨x, finite?_eq_some_iff.2 (htrim.symm ▸ hx), htrunc⟩

end

theorem not_count_nil (n : Nat) : ¬Count [] n := by
  intro h
  have hread := natural?_eq_some_iff.2 h.1
  cases hread

/-! ## The fields of a line -/

/-- The text of a field, empty if there is none. -/
def textAt (fields : List (List Char)) (index : Nat) : List Char := fields[index]?.getD []

theorem trim_of_mem_split {line : String} : ∀ text ∈ split line, trim text = text := by
  intro text hmem
  obtain ⟨piece, -, rfl⟩ := List.mem_map.1 hmem
  exact trim_trim piece

/-- A field that is missing is read as an empty one. -/
theorem readsAs_optional {fields : List (List Char)} (htrim : ∀ text ∈ fields, trim text = text) (index : Nat)
    (name : String) (default : Nat) :
    ReadsAs name (textAt fields index) (CountOr default (textAt fields index))
      (optional name default fields[index]?) := by
  have hempty : ReadsAs name [] (CountOr default []) (.ok default) := by
    refine ⟨fun n => ?_, nofun⟩
    simp [CountOr, not_count_nil, eq_comm]
  unfold textAt
  cases hfield : fields[index]? with
  | none => exact hempty
  | some text =>
    cases text with
    | nil => exact hempty
    | cons c rest =>
      obtain ⟨hok, herror⟩ := readsAs_natural (htrim (c :: rest) (List.mem_of_getElem? hfield)) name
      refine ⟨fun n => (hok n).trans ?_, herror⟩
      simp [CountOr]

end Field

end ManiaChart
