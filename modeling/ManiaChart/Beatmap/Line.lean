/-
The lines of a beatmap source, each told apart as a format header, a section
header or content, with the bytes it takes up.

Blank lines and comments are left out. A byte order mark before the first line
and a carriage return at the end of any line belong to no line.
-/
import ManiaChart.Text.Blank
import ManiaChart.Text.Shape
import ManiaChart.Text.Located
import ManiaChart.Text.Numeral

namespace ManiaChart

/-- A line of a beatmap source. -/
inductive Line
  /-- `osu file format v14`, with its version if that is a 32-bit number. -/
  | formatVersion (version : Option Nat)
  /-- `[Name]`. -/
  | header (name : String)
  /-- Any other line, its indentation kept. -/
  | content (text : String)
deriving DecidableEq

namespace Line

open Text

/-- The words before the version of the format. -/
def formatWords : List Char := "osu file format v".toList

/-- What a line is by its text, none for a blank line or a comment. -/
def classify? (text : List Char) : Option Line :=
  let trimmed := trim text
  if trimmed.isEmpty || "//".toList.isPrefixOf trimmed then none
  else if startsWithAnyCase formatWords trimmed then
    let version := natural? (trim (trimmed.drop formatWords.length))
    some (.formatVersion (version.filter (· < UInt32.size)))
  else match within? '[' ']' trimmed with
    | some name => some (.header (String.ofList (trim name)))
    | none => some (.content (String.ofList (trimEnd text)))

/-- A line without the carriage return it may end with. -/
def withoutReturn (text : List Char) : List Char :=
  if text.getLast? = some '\r' then text.dropLast else text

/-- The pieces between line feeds with their bytes, the first one starting at
`start`. -/
def locate (start : Nat) : List (List Char) → List (Located (List Char))
  | [] => []
  | piece :: rest =>
    let text := withoutReturn piece
    ⟨text, start, start + byteLength text⟩ :: locate (start + byteLength piece + 1) rest

/-- The text after a byte order mark, and the bytes the mark takes. -/
def afterMark : List Char → Nat × List Char
  | '\ufeff' :: rest => (3, rest)
  | text => (0, text)

/-- The lines of a source. -/
def ofSource (source : String) : List (Located Line) :=
  let (start, text) := afterMark source.toList
  (locate start (text.splitOn '\n')).filterMap fun piece =>
    (classify? piece.content).map fun line => piece.map fun _ => line

end Line

end ManiaChart
