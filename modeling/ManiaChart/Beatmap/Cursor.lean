/-
Going through the source of a beatmap by its bytes. A cursor holds the whole source
and the byte where the next line starts; the line feed is searched for from there on,
and the line cut out of the source.

A cut fails when one of its ends lies outside of the text or within a character, and
the whole reading with it. The cursor moves on with every line that it cuts out
(`Cursor.lt_of_next?`), so the reading comes to an end.
-/
import ManiaChart.Beatmap.Line

namespace ManiaChart

namespace Text

/-- The text from byte `start` up to byte `stop`. -/
def slice? (text : String) (start stop : Nat) : Option String :=
  if h : start ≤ stop ∧ String.Pos.Raw.IsValid text ⟨start⟩ ∧ String.Pos.Raw.IsValid text ⟨stop⟩ then
    some (String.extract ⟨⟨start⟩, h.2.1⟩ ⟨⟨stop⟩, h.2.2⟩)
  else none

/-- The byte where a character first stands in a text. -/
def firstByte? (c : Char) : List Char → Option Nat
  | [] => none
  | first :: rest => if first = c then some 0 else (firstByte? c rest).map (first.utf8Size + ·)

/-- Whether the first bytes of a text are those of `start`, the case of ASCII letters
aside. -/
def startsWithBytes (start text : String) : Bool :=
  (slice? text 0 start.utf8ByteSize).any fun head => head.toList.map Char.toLower = start.toList.map Char.toLower

end Text

namespace Line

open Text

/-- What a line is, with the words of a format header told by their bytes. -/
def classifyBytes? (line : String) : Option Line :=
  let trimmed := trim line.toList
  let text := String.ofList trimmed
  let words := String.ofList formatWords
  if trimmed.isEmpty || "//".toList.isPrefixOf trimmed then none
  else if startsWithBytes words text then
    let version := (slice? text words.utf8ByteSize text.utf8ByteSize).getD ""
    some (.formatVersion ((natural? (trim version.toList)).filter (· < UInt32.size)))
  else match within? '[' ']' trimmed with
    | some name => some (.header (String.ofList (trim name)))
    | none => some (.content (String.ofList (trimEnd line.toList)))

end Line

/-- A source and the byte where its next line starts. -/
structure Cursor where
  source : String
  index : Nat

namespace Cursor

open Text

/-- At the first line, after a byte order mark if there is one. -/
def ofSource (source : String) : Cursor :=
  { source, index := if source.toList.head? = some '\ufeff' then Char.utf8Size '\ufeff' else 0 }

def atEnd (cursor : Cursor) : Bool := cursor.source.utf8ByteSize ≤ cursor.index

/-- How many bytes the current line takes of the text from there on, and the byte after
the line feed that ends it. -/
def lineEnd (cursor : Cursor) (rest : String) : Nat × Nat :=
  match firstByte? '\n' rest.toList with
  | some feed => (feed, cursor.index + feed + 1)
  | none => (rest.utf8ByteSize, cursor.source.utf8ByteSize)

/-- The byte after the current line and its line feed, and the byte where the line ends,
without the carriage return it may have. -/
def bounds? (cursor : Cursor) : Option (Nat × Nat) := do
  let rest ← slice? cursor.source cursor.index cursor.source.utf8ByteSize
  let (length, next) := cursor.lineEnd rest
  let line ← slice? rest 0 length
  return (next, cursor.index + byteLength (Line.withoutReturn line.toList))

/-- The current line with its bytes, and the cursor after it. -/
def next? (cursor : Cursor) : Option (Located String × Cursor) := do
  let (next, stop) ← cursor.bounds?
  let line ← slice? cursor.source cursor.index stop
  return (⟨line, cursor.index, stop⟩, { cursor with index := next })

theorem lt_of_bounds? {cursor : Cursor} {next stop : Nat} (h : cursor.bounds? = some (next, stop))
    (hmore : cursor.atEnd = false) : cursor.index < next := by
  simp only [atEnd, decide_eq_false_iff_not] at hmore
  obtain ⟨rest, -, hrest⟩ := Option.bind_eq_some_iff.1 h
  obtain ⟨line, -, hline⟩ := Option.bind_eq_some_iff.1 hrest
  cases hline
  split <;> dsimp only <;> omega

theorem lt_of_next? {cursor next : Cursor} {line : Located String} (h : cursor.next? = some (line, next))
    (hmore : cursor.atEnd = false) : next.source = cursor.source ∧ cursor.index < next.index := by
  obtain ⟨⟨index, stop⟩, hbounds, hline⟩ := Option.bind_eq_some_iff.1 h
  obtain ⟨text, -, htext⟩ := Option.bind_eq_some_iff.1 hline
  cases htext
  exact ⟨rfl, lt_of_bounds? hbounds hmore⟩

/-- What is read from a cursor on. -/
def lines? (cursor : Cursor) : Option (List (Located Line)) :=
  if _ : cursor.atEnd then some []
  else match _ : cursor.next? with
    | none => none
    | some (line, next) =>
      next.lines?.map (((Line.classifyBytes? line.content).map fun read => line.map fun _ => read).toList ++ ·)
termination_by cursor.source.utf8ByteSize - cursor.index
decreasing_by
  rename_i hend hnext
  have hmore := Bool.not_eq_true _ ▸ hend
  obtain ⟨hsource, hlt⟩ := lt_of_next? hnext hmore
  simp only [atEnd, decide_eq_false_iff_not] at hmore
  rw [hsource]
  omega

end Cursor

/-- The lines of a source, found by its bytes. -/
def Line.scan? (source : String) : Option (List (Located Line)) := (Cursor.ofSource source).lines?

end ManiaChart
