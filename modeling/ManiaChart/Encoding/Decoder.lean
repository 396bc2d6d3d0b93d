/-
Decoders: what turns bytes, one after another, into characters.
-/

namespace ManiaChart

/-- The character for bytes that stand for none. -/
def replacement : Char := '\ufffd'

/-- A way of reading characters from bytes: `step` takes in a byte and gives
the characters that are then complete, `finish` those at the end. -/
structure Decoder (σ : Type) where
  start : σ
  step : σ → UInt8 → σ × List Char
  finish : σ → List Char

namespace Decoder

variable {σ : Type}

/-- Takes in a byte after the characters read so far. -/
def advance (decoder : Decoder σ) : σ × Array Char → UInt8 → σ × Array Char
  | (state, text), byte =>
    let (state, more) := decoder.step state byte
    (state, text ++ more)

/-- The characters of bytes. -/
def decode (decoder : Decoder σ) (bytes : List UInt8) : List Char :=
  let (state, text) := bytes.foldl decoder.advance (decoder.start, #[])
  text.toList ++ decoder.finish state

end Decoder

end ManiaChart
