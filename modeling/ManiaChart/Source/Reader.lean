/-
Reading the bytes of a source, with their digests taken on the way.
-/
import ManiaChart.Digest.Fingerprint
import ManiaChart.Encoding.Basic

namespace ManiaChart

/-! ## Whole sources -/

/-- What a source hands out: pieces of its bytes, in order, and then the end or
a failure with its reason. -/
structure ByteSource where
  pieces : List (List UInt8)
  failure? : Option String := none
deriving DecidableEq

/-- A source that could not be read to its end. -/
structure ReadError where
  reason : String
deriving DecidableEq

def ReadError.message (error : ReadError) : String := "I/O error: " ++ error.reason

namespace ByteSource

/-- Bytes in pieces of a size; nothing comes in pieces of no size. -/
def cutPieces (size : Nat) : List UInt8 → List (List UInt8)
  | [] => []
  | byte :: rest =>
    if size = 0 then []
    else (byte :: rest.take (size - 1)) :: cutPieces size (rest.drop (size - 1))
termination_by bytes => bytes.length
decreasing_by
  simp only [List.length_drop, List.length_cons]
  omega

/-- The text of a source and the digests of its bytes, taken piece by piece. -/
def read (source : ByteSource) : Except ReadError (String × Fingerprint) :=
  match source.failure? with
  | some reason => .error ⟨reason⟩
  | none =>
    let running := source.pieces.foldl Fingerprint.Running.update {}
    .ok (textOfBytes source.pieces.flatten, running.finish)

end ByteSource

/-! ## Reading in steps -/

/-- Bytes being read, with the digests of those already handed out. -/
structure Fingerprint.Reader where
  rest : List UInt8
  running : Fingerprint.Running := {}

namespace Fingerprint.Reader

/-- Hands out up to `size` bytes. -/
def read (reader : Fingerprint.Reader) (size : Nat) : List UInt8 × Fingerprint.Reader :=
  let bytes := reader.rest.take size
  (bytes, { rest := reader.rest.drop size, running := reader.running.update bytes })

/-- Hands out bytes for each of the sizes in turn. -/
def readAll (reader : Fingerprint.Reader) : List Nat → List (List UInt8) × Fingerprint.Reader
  | [] => ([], reader)
  | size :: sizes =>
    let (bytes, reader) := reader.read size
    let (more, reader) := reader.readAll sizes
    (bytes :: more, reader)

/-- The digests of the bytes handed out. -/
def finish (reader : Fingerprint.Reader) : Fingerprint := reader.running.finish

end Fingerprint.Reader

end ManiaChart
