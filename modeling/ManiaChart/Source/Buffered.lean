/-
Reading a source into buffers, one read after another.

A read hands out what has come, often less than its buffer has room for: the
rest of the buffer stays as it was. The digests take in the bytes that have been
read, not the buffer.
-/
import ManiaChart.Source.Reader

namespace ManiaChart

namespace ByteSource

/-- Hands out up to `size` bytes of the piece that comes next. -/
def next (source : ByteSource) (size : Nat) : Except ReadError (List UInt8 × ByteSource) :=
  match source.pieces.dropWhile List.isEmpty with
  | piece :: rest => .ok (piece.take size, { source with pieces := piece.drop size :: rest })
  | [] =>
    match source.failure? with
    | some reason => .error ⟨reason⟩
    | none => .ok ([], { source with pieces := [] })

theorem flatten_dropWhile_isEmpty (pieces : List (List UInt8)) :
    (pieces.dropWhile List.isEmpty).flatten = pieces.flatten := by
  induction pieces with
  | nil => rfl
  | cons piece rest ih =>
    cases piece with
    | nil => exact ih
    | cons byte bytes => rfl

/-- Bytes that are handed out are no longer to come. -/
theorem flatten_of_next {source source' : ByteSource} {size : Nat} {bytes : List UInt8}
    (h : source.next size = .ok (bytes, source')) :
    bytes ++ source'.pieces.flatten = source.pieces.flatten ∧ source'.failure? = source.failure? := by
  have hflatten := flatten_dropWhile_isEmpty source.pieces
  unfold next at h
  split at h
  next piece rest hpieces =>
    cases h
    rw [← hflatten, hpieces, List.flatten_cons, List.flatten_cons, ← List.append_assoc, List.take_append_drop]
    exact ⟨rfl, rfl⟩
  next hpieces =>
    rw [hpieces] at hflatten
    split at h
    · cases h
    · cases h
      exact ⟨hflatten, rfl⟩

end ByteSource

/-- A source that is digested while it is read. -/
structure DigestedSource where
  source : ByteSource
  running : Fingerprint.Running := {}

namespace DigestedSource

/-- Reads into a buffer: how many bytes, and the buffer with these bytes at its
start. -/
def fill (reader : DigestedSource) (buffer : List UInt8) :
    Except ReadError (Nat × List UInt8 × DigestedSource) := do
  let (bytes, source) ← reader.source.next buffer.length
  let filled := bytes ++ buffer.drop bytes.length
  return (bytes.length, filled, { source, running := reader.running.update (filled.take bytes.length) })

theorem exists_of_fill {reader reader' : DigestedSource} {buffer filled : List UInt8} {count : Nat}
    (h : reader.fill buffer = .ok (count, filled, reader')) :
    ∃ bytes source, reader.source.next buffer.length = .ok (bytes, source) ∧ count = bytes.length ∧
      filled.take count = bytes ∧ reader' = { source, running := reader.running.update bytes } := by
  unfold fill at h
  cases hnext : reader.source.next buffer.length with
  | error error =>
    rw [hnext] at h
    cases h
  | ok handed =>
    obtain ⟨bytes, source⟩ := handed
    rw [hnext] at h
    cases h
    have htake : (bytes ++ buffer.drop bytes.length).take bytes.length = bytes := List.take_left
    exact ⟨bytes, source, rfl, rfl, htake, by rw [htake]⟩

/-- Reads into one buffer after another. -/
def fillAll (reader : DigestedSource) : List (List UInt8) → Except ReadError (List UInt8 × DigestedSource)
  | [] => .ok ([], reader)
  | buffer :: buffers => do
    let (count, filled, reader) ← reader.fill buffer
    let (more, reader) ← reader.fillAll buffers
    return (filled.take count ++ more, reader)

/-- Reads until there is nothing more to read, after the bytes in `taken`: all
bytes and their digests. -/
def readToEnd (reader : DigestedSource) (buffers : Nat → List UInt8) (taken : List UInt8) :
    Except ReadError (List UInt8 × Fingerprint) :=
  match _ : reader.fill (buffers 0) with
  | .error error => .error error
  | .ok (count, filled, reader) =>
    if count = 0 then .ok (taken, reader.running.finish)
    else reader.readToEnd (fun i => buffers (i + 1)) (taken ++ filled.take count)
termination_by reader.source.pieces.flatten.length
decreasing_by
  rename_i h hcount
  obtain ⟨bytes, source, hnext, rfl, -, rfl⟩ := exists_of_fill h
  have hfewer := congrArg List.length (ByteSource.flatten_of_next hnext).1
  rw [List.length_append] at hfewer
  dsimp only
  omega

end DigestedSource

end ManiaChart
