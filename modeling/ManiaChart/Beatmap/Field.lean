/-
The fields of record lines: trimmed texts between commas, and the numbers they
are read as.

Times and places have to fit into 32 bits with a sign, whether they are written
as whole numbers or as decimal numbers whose fraction is dropped.
-/
import ManiaChart.Beatmap.Problem
import ManiaChart.Text.Blank
import ManiaChart.Text.Shape
import ManiaChart.Text.Numeral

namespace ManiaChart

namespace Field

open Text

/-- The fields of a line, between commas and trimmed. -/
def split (line : String) : List (List Char) := (line.toList.splitOn ',').map trim

/-- A value read from a field, or the field's problem. -/
def orInvalid {α : Type} (name : String) (value : List Char) : Option α → Except LineProblem α
  | some read => .ok read
  | none => .error (.notANumber name (String.ofList value))

/-- A whole number below `bound`. -/
def natural (bound : Nat) (name : String) (value : List Char) : Except LineProblem Nat :=
  orInvalid name value ((natural? (trim value)).filter (· < bound))

/-- Any number, NaN and the infinities among them. -/
def number (name : String) (value : List Char) : Except LineProblem Binary64 :=
  orInvalid name value (number? (trim value))

def finite? (value : List Char) : Option Binary64 :=
  (number? (trim value)).filter Binary64.isFinite

def finite (name : String) (value : List Char) : Except LineProblem Binary64 :=
  orInvalid name value (finite? value)

def int32Min : Int := -0x80000000

def int32Max : Int := 0x7fffffff

/-- A finite number within the 32-bit signed range, its fraction kept. -/
def milliseconds (name : String) (value : List Char) : Except LineProblem Binary64 :=
  orInvalid name value ((finite? value).filter fun time =>
    Binary64.ofInt int32Min ≤ time ∧ time ≤ Binary64.ofInt int32Max)

/-- A whole number, or the whole part of a finite one. -/
def whole? (value : List Char) : Option Int :=
  match integer? (trim value) with
  | some n => some n
  | none => (finite? value).map Binary64.toInt64

/-- A whole number, or the whole part of a finite one, within the 32-bit signed
range. -/
def integer (name : String) (value : List Char) : Except LineProblem Int :=
  orInvalid name value ((whole? value).filter fun n => int32Min ≤ n ∧ n ≤ int32Max)

/-- A 32-bit unsigned number in a field that may be missing or empty. -/
def optional (name : String) (default : Nat) (value? : Option (List Char)) : Except LineProblem Nat :=
  match value? with
  | none | some [] => .ok default
  | some value => natural UInt32.size name value

end Field

end ManiaChart
