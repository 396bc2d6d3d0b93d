/-
Hash functions that work through a message in blocks of 64 bytes.

A message is padded with a one bit, zeros and its length in bits up to a whole
number of blocks. Bytes can be given in any number of pieces: `update_append`
says that only their sequence counts.
-/

namespace ManiaChart

/-- What tells one such hash function from another: `absorb` takes a block of
64 bytes into the state. -/
structure BlockHash (σ : Type) where
  initial : σ
  absorb : σ → Array UInt8 → σ
  /-- The eight bytes for a length in bits at the end of the padding. -/
  lengthBytes : Nat → List UInt8
  output : σ → List UInt8

namespace BlockHash

variable {σ : Type}

/-- A message on its way through a hash function. -/
structure Running (σ : Type) where
  state : σ
  /-- The bytes since the last whole block. -/
  pending : Array UInt8 := #[]
  /-- The number of bytes so far. -/
  length : Nat := 0

def start (hash : BlockHash σ) : Running σ := { state := hash.initial }

def push (hash : BlockHash σ) (running : Running σ) (byte : UInt8) : Running σ :=
  let pending := running.pending.push byte
  if pending.size = 64 then
    { state := hash.absorb running.state pending, length := running.length + 1 }
  else { running with pending, length := running.length + 1 }

def update (hash : BlockHash σ) (running : Running σ) (bytes : List UInt8) : Running σ :=
  bytes.foldl hash.push running

theorem update_append (hash : BlockHash σ) (running : Running σ) (first second : List UInt8) :
    hash.update running (first ++ second) = hash.update (hash.update running first) second :=
  List.foldl_append

/-- The padding of a message of `length` bytes. -/
def padding (hash : BlockHash σ) (length : Nat) : List UInt8 :=
  0x80 :: List.replicate ((119 - length % 64) % 64) 0 ++ hash.lengthBytes (8 * length)

def finish (hash : BlockHash σ) (running : Running σ) : List UInt8 :=
  hash.output (hash.update running (hash.padding running.length)).state

def digest (hash : BlockHash σ) (message : List UInt8) : List UInt8 :=
  hash.finish (hash.update hash.start message)

end BlockHash

/-! ## Bytes and words -/

namespace Word

/-- The four bytes of a word, the lowest first. -/
def littleEndian (word : UInt32) : List UInt8 :=
  [word.toUInt8, (word >>> 8).toUInt8, (word >>> 16).toUInt8, (word >>> 24).toUInt8]

/-- The four bytes of a word, the highest first. -/
def bigEndian (word : UInt32) : List UInt8 := (littleEndian word).reverse

/-- The low half of a number of up to 64 bits. -/
def low (n : Nat) : UInt32 := UInt32.ofNat n

/-- The high half of a number of up to 64 bits. -/
def high (n : Nat) : UInt32 := UInt32.ofNat (n / UInt32.size)

/-- The word at byte `start` of a block, its lowest byte first. -/
def readLittleEndian (block : Array UInt8) (start : Nat) : UInt32 :=
  let byte (i : Nat) : UInt32 := (block.getD (start + i) 0).toUInt32
  byte 0 ||| byte 1 <<< 8 ||| byte 2 <<< 16 ||| byte 3 <<< 24

/-- The word at byte `start` of a block, its highest byte first. -/
def readBigEndian (block : Array UInt8) (start : Nat) : UInt32 :=
  let byte (i : Nat) : UInt32 := (block.getD (start + i) 0).toUInt32
  byte 3 ||| byte 2 <<< 8 ||| byte 1 <<< 16 ||| byte 0 <<< 24

def ofBlock (read : Array UInt8 → Nat → UInt32) (block : Array UInt8) : Array UInt32 :=
  ((List.range 16).map fun i => read block (4 * i)).toArray

/-- A word with its bits moved up by `n` places, those at the top coming in
again at the bottom; `n` is between 1 and 31. -/
def rotateLeft (word n : UInt32) : UInt32 := word <<< n ||| word >>> (32 - n)

/-- A word with its bits moved down by `n` places, those at the bottom coming
in again at the top; `n` is between 1 and 31. -/
def rotateRight (word n : UInt32) : UInt32 := word >>> n ||| word <<< (32 - n)

end Word

end ManiaChart
