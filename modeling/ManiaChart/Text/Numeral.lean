/-
Numbers as they are written: whole numbers and decimal numbers in ASCII
digits, with an optional sign and nothing else around them.
-/
import ManiaChart.Binary64.Arithmetic
import ManiaChart.Binary64.Decimal

namespace ManiaChart.Text

/-- The number a run of digits stands for. -/
def digitsValue (digits : List Char) : Nat :=
  digits.foldl (fun n c => 10 * n + (c.toNat - '0'.toNat)) 0

/-- A run of at least one digit. -/
def digits? (text : List Char) : Option Nat :=
  if !text.isEmpty && text.all Char.isDigit then some (digitsValue text) else none

/-- A whole number that may carry a plus sign. -/
def natural? : List Char → Option Nat
  | '+' :: rest => digits? rest
  | text => digits? text

/-- A whole number that may carry either sign. -/
def integer? : List Char → Option Int
  | '-' :: rest => (digits? rest).map fun n => -(n : Int)
  | text => (natural? text).map Int.ofNat

/-! ## Decimal numbers -/

/-- The exponent after a mantissa: nothing, or `e` and a whole number. -/
def exponent? : List Char → Option Int
  | [] => some 0
  | c :: rest => if c.toLower = 'e' then integer? rest else none

/-- An unsigned decimal number: digits with at most one point among or around
them, then an optional exponent. -/
def unsignedDecimal? (negative : Bool) (text : List Char) : Option Binary64 :=
  let (whole, rest) := text.span Char.isDigit
  let (fraction, rest) := match rest with
    | '.' :: rest => rest.span Char.isDigit
    | _ => ([], rest)
  if whole.isEmpty && fraction.isEmpty then none
  else (exponent? rest).map fun exponent =>
    Binary64.ofDecimal negative (digitsValue (whole ++ fraction)) (exponent - fraction.length)

/-- A number without its sign: `nan`, `inf`, `infinity` in any case, or a
decimal number. -/
def unsignedNumber? (negative : Bool) (text : List Char) : Option Binary64 :=
  let name := String.ofList (text.map Char.toLower)
  if name = "nan" then some .nan
  else if name = "inf" ∨ name = "infinity" then some (.infinity negative)
  else unsignedDecimal? negative text

/-- A binary64 number that may carry either sign, the nearest to the decimal
number written. -/
def number? : List Char → Option Binary64
  | '-' :: rest => unsignedNumber? true rest
  | '+' :: rest => unsignedNumber? false rest
  | text => unsignedNumber? false text

end ManiaChart.Text
