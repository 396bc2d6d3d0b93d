/-
Why a line of a beatmap is passed over.
-/

namespace ManiaChart

/-- What is wrong with a line. -/
inductive LineProblem
  /-- A line of content before the first section header. -/
  | outsideSections
  /-- A section header with a name that is not known. -/
  | unknownSection (name : String)
  /-- A line without the colon of a `key: value` pair. -/
  | noColon
  /-- A record with too few fields. -/
  | tooFewFields (expected found : Nat)
  /-- A field that is no number, or not one of the allowed range. -/
  | notANumber (field value : String)
deriving DecidableEq

/-- The wording of a problem. -/
def LineProblem.message : LineProblem → String
  | outsideSections => "line is outside of any section"
  | unknownSection name => "unknown section `[" ++ name ++ "]`"
  | noColon => "expected `key: value` pair"
  | tooFewFields expected found =>
    "expected at least " ++ toString expected ++ " fields, but found " ++ toString found
  | notANumber field value => "invalid number `" ++ value ++ "` for " ++ field

end ManiaChart
