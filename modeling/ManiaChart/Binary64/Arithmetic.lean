/-
Sums, products and quotients of binary64 numbers.

Each operation on finite numbers is the exact result in units, rounded once
(`Binary64.ofRatio`); the other cases are those of signed infinities and zeros.
-/
import ManiaChart.Binary64.Basic

namespace ManiaChart.Binary64

instance : Neg Binary64 where
  neg
    | nan => nan
    | infinity negative => infinity !negative
    | finite negative m => finite (!negative) m

/-- The count of units of a finite number, with its sign. -/
def signedUnits (negative : Bool) (m : Magnitude) : Int :=
  if negative then -m.units else m.units

/-- Opposite infinities have no sum. A sum of zero is positive, unless both
terms are negative zeros. -/
def add : Binary64 → Binary64 → Binary64
  | nan, _ => nan
  | _, nan => nan
  | infinity a, infinity b => if a = b then infinity a else nan
  | infinity a, finite _ _ => infinity a
  | finite _ _, infinity b => infinity b
  | finite a m, finite b n =>
    let sum := signedUnits a m + signedUnits b n
    if sum = 0 then zero (a && b) else ofRatio (sum < 0) sum.natAbs 1

/-- An infinity times zero is not a number. -/
def mul : Binary64 → Binary64 → Binary64
  | nan, _ => nan
  | _, nan => nan
  | infinity a, infinity b => infinity (a ^^ b)
  | infinity a, finite b n => if n.units = 0 then nan else infinity (a ^^ b)
  | finite a m, infinity b => if m.units = 0 then nan else infinity (a ^^ b)
  | finite a m, finite b n => ofRatio (a ^^ b) (m.units * n.units) unitsPerOne

/-- Zero over zero and infinity over infinity are not numbers; anything else
over zero is an infinity. -/
def div : Binary64 → Binary64 → Binary64
  | nan, _ => nan
  | _, nan => nan
  | infinity _, infinity _ => nan
  | infinity a, finite b _ => infinity (a ^^ b)
  | finite a _, infinity b => zero (a ^^ b)
  | finite a m, finite b n =>
    if n.units = 0 then if m.units = 0 then nan else infinity (a ^^ b)
    else ofRatio (a ^^ b) (m.units * unitsPerOne) n.units

instance : Add Binary64 := ⟨add⟩
instance : Mul Binary64 := ⟨mul⟩
instance : Div Binary64 := ⟨div⟩

end ManiaChart.Binary64
