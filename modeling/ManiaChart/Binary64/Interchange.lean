/-
Binary64 numbers as their 64 interchange bits: a sign bit, eleven bits of
exponent and 52 bits of fraction.
-/
import ManiaChart.Binary64.Basic

namespace ManiaChart.Binary64

/-- The exponent and fraction bits of a magnitude. Up to 2^53 units they are
the count itself; from there each doubling of the step adds one to the
exponent. -/
def magnitudeBits (units : Nat) : Nat :=
  stepExponent units <<< 52 + units >>> stepExponent units

/-- The bits of a number; NaN has those of the quiet NaN without payload. -/
def toBits : Binary64 → UInt64
  | nan => 0x7ff8000000000000
  | infinity negative => signBit negative + 0x7ff0000000000000
  | finite negative m => signBit negative + UInt64.ofNat (magnitudeBits m.units)
where
  signBit (negative : Bool) : UInt64 := if negative then 0x8000000000000000 else 0

/-- The number with the given bits. An exponent of all ones is an infinity, or
NaN when the fraction is not zero. -/
def ofBits (bits : UInt64) : Binary64 :=
  let negative := bits >>> 63 = 1
  let exponent := (bits >>> 52 &&& 0x7ff).toNat
  let fraction := (bits &&& 0xfffffffffffff).toNat
  if exponent = 0x7ff then
    if fraction = 0 then infinity negative else nan
  else if exponent = 0 then ofRatio negative fraction 1
  else ofRatio negative ((0x10000000000000 + fraction) <<< (exponent - 1)) 1

end ManiaChart.Binary64
