/-
The text of a beatmap file: UTF-8, or what older files are written in.

Bytes that are valid UTF-8 are taken as they are, a byte order mark included.
Any other bytes are Shift_JIS, unless they start with a byte order mark; then
they are in the encoding it belongs to, and the mark is dropped.
-/
import ManiaChart.Encoding.Utf8
import ManiaChart.Encoding.Utf16
import ManiaChart.Encoding.ShiftJis

namespace ManiaChart

/-- The characters of bytes that are not valid UTF-8. -/
def decodeOther : List UInt8 → List Char
  | 0xef :: 0xbb :: 0xbf :: rest => Utf8.decoder.decode rest
  | 0xff :: 0xfe :: rest => (Utf16.decoder .lowFirst).decode rest
  | 0xfe :: 0xff :: rest => (Utf16.decoder .highFirst).decode rest
  | bytes => ShiftJis.decoder.decode bytes

/-- The text of a file. -/
def textOfBytes (bytes : List UInt8) : String :=
  (String.fromUTF8? ⟨bytes.toArray⟩).getD (String.ofList (decodeOther bytes))

end ManiaChart
