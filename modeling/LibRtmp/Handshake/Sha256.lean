import LibRtmp.Buffer.Raw
import LibRtmp.Lib.Sha2

/-! Incremental SHA-256. The words of a state are those of the standard. -/
namespace LibRtmp

open Sha2 (Words wordOfBe)

namespace Sha256

def k : List UInt32 :=
  [0x428a2f98, 0x71374491, 0xb5c0fbcf, 0xe9b5dba5, 0x3956c25b, 0x59f111f1, 0x923f82a4, 0xab1c5ed5,
   0xd807aa98, 0x12835b01, 0x243185be, 0x550c7dc3, 0x72be5d74, 0x80deb1fe, 0x9bdc06a7, 0xc19bf174,
   0xe49b69c1, 0xefbe4786, 0x0fc19dc6, 0x240ca1cc, 0x2de92c6f, 0x4a7484aa, 0x5cb0a9dc, 0x76f988da,
   0x983e5152, 0xa831c66d, 0xb00327c8, 0xbf597fc7, 0xc6e00bf3, 0xd5a79147, 0x06ca6351, 0x14292967,
   0x27b70a85, 0x2e1b2138, 0x4d2c6dfc, 0x53380d13, 0x650a7354, 0x766a0abb, 0x81c2c92e, 0x92722c85,
   0xa2bfe8a1, 0xa81a664b, 0xc24b8b70, 0xc76c51a3, 0xd192e819, 0xd6990624, 0xf40e3585, 0x106aa070,
   0x19a4c116, 0x1e376c08, 0x2748774c, 0x34b0bcb5, 0x391c0cb3, 0x4ed8aa4a, 0x5b9cca4f, 0x682e6ff3,
   0x748f82ee, 0x78a5636f, 0x84c87814, 0x8cc70208, 0x90befffa, 0xa4506ceb, 0xbef9a3f7, 0xc67178f2]

def h0 : Words :=
  ⟨0x6a09e667, 0xbb67ae85, 0x3c6ef372, 0xa54ff53a, 0x510e527f, 0x9b05688c, 0x1f83d9ab, 0x5be0cd19⟩

section Compression

def rotateRight (x : UInt32) (n : Nat) : UInt32 := ⟨x.toBitVec.rotateRight n⟩

def loadBlock (block : List UInt8) : List UInt32 :=
  (List.range 16).foldl (fun w i => w.set i (wordOfBe ((block.drop (4 * i)).take 4)))
    (List.replicate 64 0)

def extendAt (w : List UInt32) (i : Nat) : List UInt32 :=
  let x := w.getD (i - 15) 0
  let y := w.getD (i - 2) 0
  let s0 := rotateRight x 7 ^^^ rotateRight x 18 ^^^ x >>> 3
  let s1 := rotateRight y 17 ^^^ rotateRight y 19 ^^^ y >>> 10
  w.set i (w.getD (i - 16) 0 + s0 + w.getD (i - 7) 0 + s1)

def expand (block : List UInt8) : List UInt32 :=
  (List.range' 16 48).foldl extendAt (loadBlock block)

def round (w : List UInt32) (s : Words) (i : Nat) : Words :=
  let s1 := rotateRight s.e 6 ^^^ rotateRight s.e 11 ^^^ rotateRight s.e 25
  let ch := (s.e &&& s.f) ^^^ (~~~s.e &&& s.g)
  let t1 := s.h + s1 + ch + k.getD i 0 + w.getD i 0
  let s0 := rotateRight s.a 2 ^^^ rotateRight s.a 13 ^^^ rotateRight s.a 22
  let maj := (s.a &&& s.b) ^^^ (s.a &&& s.c) ^^^ (s.b &&& s.c)
  let t2 := s0 + maj
  ⟨t1 + t2, s.a, s.b, s.c, s.d + t1, s.e, s.f, s.g⟩

def compress (state : Words) (block : List UInt8) : Words :=
  state.add ((List.range 64).foldl (round (expand block)) state)

end Compression

end Sha256

structure Sha256 where
  state : Words
  block : List UInt8
  blockLen : Nat
  totalLen : UInt64
  deriving DecidableEq, Repr

namespace Sha256

def new : Sha256 := ⟨h0, List.replicate 64 0, 0, 0⟩

def feed (h : Sha256) (data : List UInt8) : Call Sha256 := do
  let rest := Blocks.rest 64 data
  let block ← copyInto h.block 0 rest
  some { h with
    state := (Blocks.blocks 64 data).foldl compress h.state
    block
    blockLen := rest.length }

def update (h : Sha256) (data : List UInt8) : Call Sha256 :=
  let h := { h with totalLen := h.totalLen + UInt64.ofNat data.length }
  if h.blockLen > 0 then do
    let take := min (64 - h.blockLen) data.length
    let block ← copyInto h.block h.blockLen (data.take take)
    let blockLen := h.blockLen + take
    if blockLen < 64 then some { h with block, blockLen }
    else feed { h with state := compress h.state block, block, blockLen := 0 } (data.drop take)
  else feed h data

def updateAll (h : Sha256) (parts : List (List UInt8)) : Call Sha256 := parts.foldlM update h

/-- The digest. The last step is the assertion that the padding has filled a block. -/
def finalize (h : Sha256) : Call (List UInt8) := do
  let bitLen := h.totalLen * 8
  let pad := 0x80 :: List.replicate 71 0
  let padLen := if h.blockLen < 56 then 56 - h.blockLen else 120 - h.blockLen
  let padding ← sliceRange pad 0 padLen
  let h ← h.update padding
  let h ← h.update (Bytes.toBe 8 bitLen.toNat)
  if h.blockLen = 0 then some (h.state.toList.flatMap (fun word => Bytes.toBe 4 word.toNat)) else none

end Sha256

def sha256 (parts : List (List UInt8)) : Call (List UInt8) := do
  let h ← Sha256.new.updateAll parts
  h.finalize

def xorPad (byte : UInt8) (k : List UInt8) : List UInt8 :=
  (List.range 64).foldl (fun pad i => pad.set i (pad.getD i 0 ^^^ k.getD i 0))
    (List.replicate 64 byte)

def hmacKey (key : List UInt8) : Call (List UInt8) :=
  if key.length > 64 then do
    let hashed ← sha256 [key]
    copyInto (List.replicate 64 0) 0 hashed
  else copyInto (List.replicate 64 0) 0 key

def hmacSha256 (key : List UInt8) (parts : List (List UInt8)) : Call (List UInt8) := do
  let k ← hmacKey key
  let inner ← Sha256.new.update (xorPad 0x36 k)
  let inner ← inner.updateAll parts
  let inner ← inner.finalize
  let outer ← Sha256.new.update (xorPad 0x5C k)
  let outer ← outer.update inner
  outer.finalize

end LibRtmp
