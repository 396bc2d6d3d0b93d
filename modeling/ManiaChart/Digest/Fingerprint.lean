/-
The digests that identify a chart by its source: MD5 and SHA-256, in lowercase
hexadecimal digits, both taken in one pass over the bytes.
-/
import ManiaChart.Digest.Md5
import ManiaChart.Digest.Sha256

namespace ManiaChart

/-- The two lowercase hexadecimal digits of a byte. -/
def hexDigits (byte : UInt8) : List Char :=
  [Nat.digitChar (byte.toNat / 16), Nat.digitChar (byte.toNat % 16)]

/-- Bytes in lowercase hexadecimal digits. -/
def hexText (bytes : List UInt8) : String := String.ofList (bytes.flatMap hexDigits)

/-- The digests of a source. -/
structure Fingerprint where
  md5 : String
  sha256 : String
deriving DecidableEq

namespace Fingerprint

/-- The digests of bytes that are still being read. -/
structure Running where
  md5 : BlockHash.Running Md5.State := Md5.hash.start
  sha256 : BlockHash.Running Sha256.State := Sha256.hash.start

def Running.update (running : Running) (bytes : List UInt8) : Running :=
  ⟨Md5.hash.update running.md5 bytes, Sha256.hash.update running.sha256 bytes⟩

theorem Running.update_append (running : Running) (first second : List UInt8) :
    running.update (first ++ second) = (running.update first).update second := by
  simp [Running.update, BlockHash.update_append]

/-- The digests of the bytes so far. -/
def Running.finish (running : Running) : Fingerprint :=
  ⟨hexText (Md5.hash.finish running.md5), hexText (Sha256.hash.finish running.sha256)⟩

/-- The digests of bytes. -/
def ofBytes (bytes : List UInt8) : Fingerprint := (Running.update {} bytes).finish

end Fingerprint

end ManiaChart
