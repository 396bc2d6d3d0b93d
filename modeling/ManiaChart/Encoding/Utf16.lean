/-
Reading UTF-16, of either byte order, that may be broken: each surrogate
without its partner becomes one replacement character.
-/
import ManiaChart.Encoding.Decoder

namespace ManiaChart.Utf16

/-- The order of the two bytes of a code unit. -/
inductive ByteOrder
  | lowFirst
  | highFirst
deriving DecidableEq

def ByteOrder.unit : ByteOrder → UInt8 → UInt8 → Nat
  | lowFirst, first, second => first.toNat + 256 * second.toNat
  | highFirst, first, second => 256 * first.toNat + second.toNat

/-- What waits to be completed: the first byte of a code unit, and a high
surrogate before it. -/
structure Waiting where
  byte : Option UInt8 := none
  surrogate : Option Nat := none
deriving DecidableEq

/-- Takes in a code unit with no surrogate before it. -/
def first (unit : Nat) : Waiting × List Char :=
  if 0xd800 ≤ unit ∧ unit ≤ 0xdbff then ({ surrogate := some unit }, [])
  else if 0xdc00 ≤ unit ∧ unit ≤ 0xdfff then ({}, [replacement])
  else ({}, [Char.ofNat unit])

/-- Takes in a code unit after a high surrogate, if there is one. -/
def unitStep (surrogate : Option Nat) (unit : Nat) : Waiting × List Char :=
  match surrogate with
  | none => first unit
  | some high =>
    if 0xdc00 ≤ unit ∧ unit ≤ 0xdfff then
      ({}, [Char.ofNat (0x10000 + (high - 0xd800) * 0x400 + (unit - 0xdc00))])
    else
      let (waiting, text) := first unit
      (waiting, replacement :: text)

def step (order : ByteOrder) (waiting : Waiting) (byte : UInt8) : Waiting × List Char :=
  match waiting.byte with
  | none => ({ waiting with byte := some byte }, [])
  | some before => unitStep waiting.surrogate (order.unit before byte)

/-- Whatever still waits at the end becomes one replacement character. -/
def decoder (order : ByteOrder) : Decoder Waiting where
  start := {}
  step := step order
  finish waiting := if waiting = {} then [] else [replacement]

end ManiaChart.Utf16
