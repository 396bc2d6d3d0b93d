/-
Reading Shift_JIS, the code page of older Japanese texts.

A byte is a character of its own, or the first of two that name a cell of the
JIS rows or of the private use area. Two bytes that name no character become a
replacement character; an ASCII byte among them is read again on its own.
-/
import ManiaChart.Encoding.Decoder
import ManiaChart.Encoding.JisRows

namespace ManiaChart.ShiftJis

/-- Which pair of rows a first byte stands for, counted from zero. -/
def rowPair? (byte : UInt8) : Option Nat :=
  if 0x81 ≤ byte ∧ byte ≤ 0x9f then some (byte.toNat - 0x81)
  else if 0xe0 ≤ byte ∧ byte ≤ 0xfc then some (byte.toNat - 0xc1)
  else none

/-- Which of the 188 cells of a pair of rows a second byte stands for, counted
from zero. -/
def cell? (byte : UInt8) : Option Nat :=
  if 0x40 ≤ byte ∧ byte ≤ 0x7e then some (byte.toNat - 0x40)
  else if 0x80 ≤ byte ∧ byte ≤ 0xfc then some (byte.toNat - 0x41)
  else none

/-- The character in a cell, counted over all pairs of rows. The cells of rows
95 to 114 lie in the private use area. -/
def charAt? (cell : Nat) : Option Char :=
  if 94 * 94 ≤ cell ∧ cell < 94 * 114 then some (Char.ofNat (0xe000 + (cell - 94 * 94)))
  else Jis.charAt? (cell / 94 + 1) (cell % 94 + 1)

/-- The character that two bytes stand for. -/
def pair? (first second : UInt8) : Option Char := do
  let rows ← rowPair? first
  let cell ← cell? second
  charAt? (rows * 188 + cell)

/-- The character that a byte stands for on its own: one of ASCII, the control
character after it, or a halfwidth katakana. -/
def single? (byte : UInt8) : Option Char :=
  if byte ≤ 0x80 then some (Char.ofNat byte.toNat)
  else if 0xa1 ≤ byte ∧ byte ≤ 0xdf then some (Char.ofNat (0xff61 + (byte.toNat - 0xa1)))
  else none

/-- Takes in a byte, after the first of two if there is one. -/
def step : Option UInt8 → UInt8 → Option UInt8 × List Char
  | none, byte =>
    match single? byte with
    | some c => (none, [c])
    | none => if (rowPair? byte).isSome then (some byte, []) else (none, [replacement])
  | some first, byte =>
    match pair? first byte with
    | some c => (none, [c])
    | none =>
      (none, if byte < 0x80 then [replacement, Char.ofNat byte.toNat] else [replacement])

def decoder : Decoder (Option UInt8) where
  start := none
  step := step
  finish first := if first.isSome then [replacement] else []

end ManiaChart.ShiftJis
