/-
Values with the place in a source they were read from.
-/

namespace ManiaChart

/-- A value and the bytes `start ≤ i < stop` of the source it comes from. -/
structure Located (α : Type) where
  content : α
  start : Nat
  stop : Nat
deriving DecidableEq, Repr

namespace Located

variable {α β : Type}

/-- The value changed, its place kept. -/
def map (f : α → β) (x : Located α) : Located β := { x with content := f x.content }

/-- A text followed by its place. -/
def display (x : Located String) : String :=
  x.content ++ " at indices [" ++ toString x.start ++ ", " ++ toString x.stop ++ ")"

end Located

end ManiaChart
