/-
Reading UTF-8 that may be broken: each longest start of a character that does
not go on as it must becomes one replacement character.
-/
import ManiaChart.Encoding.Decoder

namespace ManiaChart.Utf8

/-- A character that has begun: the bits so far, the number of bytes still to
come, and the bounds of the next one. -/
structure Begun where
  bits : Nat
  needed : Nat
  lower : UInt8 := 0x80
  upper : UInt8 := 0xbf
deriving DecidableEq

/-- Takes in the first byte of a character. The bounds of the byte after it
leave out overlong forms, surrogates, and what lies past the last character. -/
def first (byte : UInt8) : Option Begun × List Char :=
  let low (count : Nat) : Nat := byte.toNat % count
  if byte < 0x80 then (none, [Char.ofNat byte.toNat])
  else if 0xc2 ≤ byte ∧ byte ≤ 0xdf then (some { bits := low 32, needed := 1 }, [])
  else if byte = 0xe0 then (some { bits := 0, needed := 2, lower := 0xa0 }, [])
  else if byte = 0xed then (some { bits := low 16, needed := 2, upper := 0x9f }, [])
  else if 0xe1 ≤ byte ∧ byte ≤ 0xef then (some { bits := low 16, needed := 2 }, [])
  else if byte = 0xf0 then (some { bits := 0, needed := 3, lower := 0x90 }, [])
  else if byte = 0xf4 then (some { bits := low 8, needed := 3, upper := 0x8f }, [])
  else if 0xf1 ≤ byte ∧ byte ≤ 0xf3 then (some { bits := low 8, needed := 3 }, [])
  else (none, [replacement])

/-- Takes in a byte. One that does not go on with the character begun breaks it
off and may begin another. -/
def step : Option Begun → UInt8 → Option Begun × List Char
  | none, byte => first byte
  | some begun, byte =>
    if begun.lower ≤ byte ∧ byte ≤ begun.upper then
      let bits := begun.bits * 64 + byte.toNat % 64
      if begun.needed = 1 then (none, [Char.ofNat bits])
      else (some { bits, needed := begun.needed - 1 }, [])
    else
      let (next, text) := first byte
      (next, replacement :: text)

def decoder : Decoder (Option Begun) where
  start := none
  step := step
  finish begun := if begun.isSome then [replacement] else []

end ManiaChart.Utf8
