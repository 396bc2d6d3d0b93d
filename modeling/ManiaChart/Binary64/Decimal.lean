/-
Reading decimal numbers as binary64 numbers.
-/
import ManiaChart.Binary64.Basic

namespace ManiaChart.Binary64

/-- The number nearest to `digits · 10^exponent`. From 10^310 up every number
overflows, and below 10^-325 every number rounds to zero, so that no power of
ten far outside those bounds is ever formed. -/
def ofDecimal (negative : Bool) (digits : Nat) (exponent : Int) : Binary64 :=
  if digits = 0 then zero negative
  else if 310 ≤ exponent then infinity negative
  else if exponent + digits.log2 + 1 ≤ -325 then zero negative
  else if 0 ≤ exponent then
    ofRatio negative (digits * 10 ^ exponent.toNat * unitsPerOne) 1
  else ofRatio negative (digits * unitsPerOne) (10 ^ (-exponent).toNat)

end ManiaChart.Binary64
