/-
The SHA-256 hash function.
-/
import ManiaChart.Digest.BlockHash

namespace ManiaChart.Sha256

structure State where
  a : UInt32
  b : UInt32
  c : UInt32
  d : UInt32
  e : UInt32
  f : UInt32
  g : UInt32
  h : UInt32
deriving DecidableEq

/-- The first 32 bits after the point of the square roots of the first eight
primes. -/
def initial : State :=
  ⟨0x6a09e667, 0xbb67ae85, 0x3c6ef372, 0xa54ff53a,
   0x510e527f, 0x9b05688c, 0x1f83d9ab, 0x5be0cd19⟩

/-- The constant of each step: the first 32 bits after the point of the cube
roots of the first 64 primes. -/
def cubeRoots : List UInt32 :=
  [0x428a2f98, 0x71374491, 0xb5c0fbcf, 0xe9b5dba5, 0x3956c25b, 0x59f111f1, 0x923f82a4, 0xab1c5ed5,
   0xd807aa98, 0x12835b01, 0x243185be, 0x550c7dc3, 0x72be5d74, 0x80deb1fe, 0x9bdc06a7, 0xc19bf174,
   0xe49b69c1, 0xefbe4786, 0x0fc19dc6, 0x240ca1cc, 0x2de92c6f, 0x4a7484aa, 0x5cb0a9dc, 0x76f988da,
   0x983e5152, 0xa831c66d, 0xb00327c8, 0xbf597fc7, 0xc6e00bf3, 0xd5a79147, 0x06ca6351, 0x14292967,
   0x27b70a85, 0x2e1b2138, 0x4d2c6dfc, 0x53380d13, 0x650a7354, 0x766a0abb, 0x81c2c92e, 0x92722c85,
   0xa2bfe8a1, 0xa81a664b, 0xc24b8b70, 0xc76c51a3, 0xd192e819, 0xd6990624, 0xf40e3585, 0x106aa070,
   0x19a4c116, 0x1e376c08, 0x2748774c, 0x34b0bcb5, 0x391c0cb3, 0x4ed8aa4a, 0x5b9cca4f, 0x682e6ff3,
   0x748f82ee, 0x78a5636f, 0x84c87814, 0x8cc70208, 0x90befffa, 0xa4506ceb, 0xbef9a3f7, 0xc67178f2]

/-- The words that the steps take in: those of the block, then 48 more, each
from four words before it. -/
def schedule (block : Array UInt8) : Array UInt32 :=
  (List.range 48).foldl
    (fun words i =>
      let early := words.getD (i + 1) 0
      let late := words.getD (i + 14) 0
      let low := Word.rotateRight early 7 ^^^ Word.rotateRight early 18 ^^^ early >>> 3
      let high := Word.rotateRight late 17 ^^^ Word.rotateRight late 19 ^^^ late >>> 10
      words.push (words.getD i 0 + low + words.getD (i + 9) 0 + high))
    (Word.ofBlock Word.readBigEndian block)

/-- One step, with its constant and the word it takes in. -/
def step (s : State) : UInt32 × UInt32 → State
  | (root, word) =>
    let high := Word.rotateRight s.e 6 ^^^ Word.rotateRight s.e 11 ^^^ Word.rotateRight s.e 25
    let choice := (s.e &&& s.f) ^^^ (~~~s.e &&& s.g)
    let first := s.h + high + choice + root + word
    let low := Word.rotateRight s.a 2 ^^^ Word.rotateRight s.a 13 ^^^ Word.rotateRight s.a 22
    let majority := (s.a &&& s.b) ^^^ (s.a &&& s.c) ^^^ (s.b &&& s.c)
    ⟨first + low + majority, s.a, s.b, s.c, s.d + first, s.e, s.f, s.g⟩

/-- Takes a block into the state. -/
def absorb (s : State) (block : Array UInt8) : State :=
  let t := (cubeRoots.zip (schedule block).toList).foldl step s
  ⟨s.a + t.a, s.b + t.b, s.c + t.c, s.d + t.d, s.e + t.e, s.f + t.f, s.g + t.g, s.h + t.h⟩

def hash : BlockHash State where
  initial := initial
  absorb := absorb
  lengthBytes bits := Word.bigEndian (Word.high bits) ++ Word.bigEndian (Word.low bits)
  output s := [s.a, s.b, s.c, s.d, s.e, s.f, s.g, s.h].flatMap Word.bigEndian

end ManiaChart.Sha256
