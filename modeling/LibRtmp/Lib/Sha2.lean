import LibRtmp.Lib.Blocks
import LibRtmp.Lib.Bytes
import Mathlib.Data.Nat.Find

/-! SHA-256 as FIPS 180-4 has it, and HMAC as RFC 2104 has it. -/
namespace Sha2

structure Words where
  a : UInt32
  b : UInt32
  c : UInt32
  d : UInt32
  e : UInt32
  f : UInt32
  g : UInt32
  h : UInt32
  deriving DecidableEq, Repr

namespace Words

def toList (s : Words) : List UInt32 := [s.a, s.b, s.c, s.d, s.e, s.f, s.g, s.h]

def add (s t : Words) : Words :=
  ⟨s.a + t.a, s.b + t.b, s.c + t.c, s.d + t.d, s.e + t.e, s.f + t.f, s.g + t.g, s.h + t.h⟩

end Words

def wordOfBe (d : List UInt8) : UInt32 := UInt32.ofNat (Bytes.ofBe d)

section Functions

def shr (n : Nat) (x : UInt32) : UInt32 := ⟨x.toBitVec >>> n⟩

def rotr (n : Nat) (x : UInt32) : UInt32 := ⟨x.toBitVec >>> n ||| x.toBitVec <<< (32 - n)⟩

def ch (x y z : UInt32) : UInt32 := (x &&& y) ^^^ (~~~x &&& z)

def maj (x y z : UInt32) : UInt32 := (x &&& y) ^^^ (x &&& z) ^^^ (y &&& z)

def bigSigma0 (x : UInt32) : UInt32 := rotr 2 x ^^^ rotr 13 x ^^^ rotr 22 x

def bigSigma1 (x : UInt32) : UInt32 := rotr 6 x ^^^ rotr 11 x ^^^ rotr 25 x

def smallSigma0 (x : UInt32) : UInt32 := rotr 7 x ^^^ rotr 18 x ^^^ shr 3 x

def smallSigma1 (x : UInt32) : UInt32 := rotr 17 x ^^^ rotr 19 x ^^^ shr 10 x

end Functions

section Constants

/-- The first 64 primes: the numbers up to 311 that no smaller one divides. -/
def primes : List Nat :=
  (List.range' 2 310).filter (fun n => (List.range' 2 (n - 2)).all (fun d => n % d != 0))

/-- The integer part of `2 ^ 32` times the `n`-th root of `p`. -/
def scaledRoot (n p : Nat) : Nat :=
  Nat.findGreatest (fun r => r ^ n ≤ p * (2 ^ 32) ^ n) (p * 2 ^ 32)

def rootFraction (n p : Nat) : UInt32 := UInt32.ofNat (scaledRoot n p)

def roundConstant (t : Nat) : UInt32 := rootFraction 3 (primes.getD t 0)

def initialWord (i : Nat) : UInt32 := rootFraction 2 (primes.getD i 0)

def initialHash : Words :=
  ⟨initialWord 0, initialWord 1, initialWord 2, initialWord 3, initialWord 4, initialWord 5,
    initialWord 6, initialWord 7⟩

theorem scaled_root_eq {n p r : Nat} (hle : r ^ n ≤ p * (2 ^ 32) ^ n)
    (hlt : p * (2 ^ 32) ^ n < (r + 1) ^ n) (hbound : r ≤ p * 2 ^ 32) : scaledRoot n p = r := by
  rw [scaledRoot, Nat.findGreatest_eq_iff]
  refine ⟨hbound, fun _ => hle, fun q hq _ hroot => ?_⟩
  have hmono : (r + 1) ^ n ≤ q ^ n := Nat.pow_le_pow_left hq n
  omega

end Constants

section Compression

def schedule (block : List UInt8) (t : Nat) : UInt32 :=
  if _h : t < 16 then wordOfBe ((block.drop (4 * t)).take 4)
  else
    smallSigma1 (schedule block (t - 2)) + schedule block (t - 7) +
      smallSigma0 (schedule block (t - 15)) + schedule block (t - 16)

def round (block : List UInt8) (s : Words) (t : Nat) : Words :=
  let t1 := s.h + bigSigma1 s.e + ch s.e s.f s.g + roundConstant t + schedule block t
  let t2 := bigSigma0 s.a + maj s.a s.b s.c
  ⟨t1 + t2, s.a, s.b, s.c, s.d + t1, s.e, s.f, s.g⟩

def compress (s : Words) (block : List UInt8) : Words :=
  s.add ((List.range 64).foldl (round block) s)

end Compression

section Hashing

/-- A one bit, as few zeros as fill a block but for the length, and the length in bits. -/
def padding (len : Nat) : List UInt8 :=
  0x80 :: (List.replicate ((119 - len % 64) % 64) 0 ++ Bytes.toBe 8 (8 * len))

def digest (s : Words) : List UInt8 := s.toList.flatMap (fun x => Bytes.toBe 4 x.toNat)

def sha256 (message : List UInt8) : List UInt8 :=
  digest ((Blocks.blocks 64 (message ++ padding message.length)).foldl compress initialHash)

theorem padded_length (message : List UInt8) :
    (message ++ padding message.length).length % 64 = 0 := by
  simp only [padding, List.length_append, List.length_cons, List.length_replicate,
    Bytes.to_be_length]
  omega

def blockKey (key : List UInt8) : List UInt8 :=
  let key := if key.length > 64 then sha256 key else key
  key ++ List.replicate (64 - key.length) 0

def hmac (key message : List UInt8) : List UInt8 :=
  sha256 ((blockKey key).map (fun b => b ^^^ 0x5C) ++
    sha256 ((blockKey key).map (fun b => b ^^^ 0x36) ++ message))

end Hashing

end Sha2
