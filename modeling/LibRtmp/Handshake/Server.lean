import LibRtmp.Buffer.Read
import LibRtmp.Handshake.Sha256

/-! The server's side of the handshake. -/
namespace LibRtmp

open Actions

def handshakeSize : Nat := 1536

inductive HandshakeState where
  | serverWaitC0 | serverWaitC1 | serverWaitC2 | clientWaitS0 | clientWaitS1 | clientWaitS2 | done
  deriving DecidableEq, Repr

structure Handshake where
  state : HandshakeState := .serverWaitC0
  version : UInt8 := 0
  peerTime : UInt32 := 0
  out : Buffer := .new

/-- How a C1 was answered: the value is the base of the digest block. -/
inductive HandshakeMode where
  | simple | simpleFallback | digest (base : Nat)
  deriving DecidableEq, Repr

structure Fills where
  s1 : List UInt8
  s2 : List UInt8
  time : UInt32
  s1Length : s1.length = handshakeSize - 8
  s2Length : s2.length = handshakeSize

namespace Handshake

def digestLen : Nat := 32

def handshakeKeyTail : List UInt8 :=
  [0xF0, 0xEE, 0xC2, 0x4A, 0x80, 0x68, 0xBE, 0xE8, 0x2E, 0x00, 0xD0, 0xD1, 0x02, 0x9E, 0x7E, 0x57,
   0x6E, 0xEC, 0x5D, 0x2D, 0x29, 0x80, 0x6F, 0xAB, 0x93, 0xB8, 0xE6, 0x36, 0xCF, 0xEB, 0x31, 0xAE]

def fpKeyText : List UInt8 := "Genuine Adobe Flash Player 001".toUTF8.data.toList

def fmsKeyText : List UInt8 := "Genuine Adobe Flash Media Server 001".toUTF8.data.toList

def serverDigestVersion : List UInt8 := [0x04, 0x05, 0x00, 0x01]

def digestBlockBases : List Nat := [772, 8]

def c1RequestsComplexHandshake (c1 : List UInt8) : Bool :=
  c1.length ≥ handshakeSize &&
    (c1.getD 4 0 != 0 || c1.getD 5 0 != 0 || c1.getD 6 0 != 0 || c1.getD 7 0 != 0)

def digestOffset (buf : List UInt8) (base : Nat) : Call Nat := do
  let selector ← sliceRange buf base (base + 4)
  some (base + 4 + (selector.map UInt8.toNat).sum % 728)

def digestWithout (buf : List UInt8) (offset : Nat) (key : List UInt8) : Call (List UInt8) := do
  let front ← sliceRange buf 0 offset
  let back ← sliceRange buf (offset + digestLen) buf.length
  hmacSha256 key [front, back]

def findDigestIn (c1 : List UInt8) : List Nat → Call (Option (Nat × List UInt8))
  | [] => some none
  | base :: bases => do
    let off ← digestOffset c1 base
    let expected ← digestWithout c1 off fpKeyText
    let found ← sliceRange c1 off (off + digestLen)
    if expected = found then some (some (base, found)) else findDigestIn c1 bases

def findC1Digest (c1 : List UInt8) : Call (Option (Nat × List UInt8)) :=
  findDigestIn c1 digestBlockBases

def fmsFullKey : Call (List UInt8) := do
  let key ← copyInto (List.replicate 68 0) 0 fmsKeyText
  copyInto key fmsKeyText.length handshakeKeyTail

def buildDigestS1 (base : Nat) (fills : Fills) : Call (List UInt8) := do
  let s1 ← copyInto (List.replicate handshakeSize 0) 8 fills.s1
  let s1 ← copyInto s1 0 (Bytes.toBe 4 fills.time.toNat)
  let s1 ← copyInto s1 4 serverDigestVersion
  let off ← digestOffset s1 base
  let digest ← digestWithout s1 off fmsKeyText
  copyInto s1 off digest

def buildDigestS2 (c1Digest : List UInt8) (fills : Fills) : Call (List UInt8) := do
  let s2 ← copyInto (List.replicate handshakeSize 0) 0 fills.s2
  let fullKey ← fmsFullKey
  let signKey ← hmacSha256 fullKey [c1Digest]
  let sigAt := handshakeSize - digestLen
  let signed ← sliceRange s2 0 sigAt
  let signature ← hmacSha256 signKey [signed]
  copyInto s2 sigAt signature

def buildDigestS1s2 (base : Nat) (c1Digest : List UInt8) (fills : Fills) :
    Call (List UInt8 × List UInt8) := do
  let s1 ← buildDigestS1 base fills
  let s2 ← buildDigestS2 c1Digest fills
  some (s1, s2)

/-- S1 and S2 of the plain handshake: S2 echoes C1 with the server's time in bytes 4 to 7. -/
def buildPlainS1s2 (c1 : List UInt8) (fills : Fills) : Call (List UInt8 × List UInt8) := do
  let s1 ← copyInto (List.replicate handshakeSize 0) 0 (Bytes.toBe 4 fills.time.toNat)
  let s1 ← copyInto s1 8 fills.s1
  let s2 ← copyInto c1 4 (Bytes.toBe 4 fills.time.toNat)
  some (s1, s2)

def findIf (complex : Bool) (c1 : List UInt8) : Call (Option (Nat × List UInt8)) :=
  if complex then findC1Digest c1 else some none

def answerC1 (c1 : List UInt8) (fills : Fills) :
    Call (List UInt8 × List UInt8 × HandshakeMode) := do
  let complex := c1RequestsComplexHandshake c1
  let found ← findIf complex c1
  match found with
  | some (base, c1Digest) => do
    let (s1, s2) ← buildDigestS1s2 base c1Digest fills
    some (s1, s2, .digest base)
  | none => do
    let (s1, s2) ← buildPlainS1s2 c1 fills
    some (s1, s2, if complex then .simpleFallback else .simple)

def ntoh32 (d : List UInt8) : UInt32 := UInt32.ofNat (Bytes.ofBe d)

def queueReply (s1 s2 : List UInt8) : WriteM Unit := do
  writeAll s1
  writeAll s2

def serverReadC1Mode (fills : Fills) (hs : Handshake) (buf : Buffer) :
    Call (Except ErrorCode HandshakeMode × Handshake × Buffer) :=
  if buf.available < handshakeSize then some (.error .io, hs, buf)
  else
    match (readBytes .io handshakeSize).on buf with
    | (.error e, buf) => some (.error e, hs, buf)
    | (.ok c1, buf) => do
      let peer ← sliceRange c1 0 4
      let hs := { hs with peerTime := ntoh32 peer }
      let (s1, s2, mode) ← answerC1 c1 fills
      match (queueReply s1 s2).on hs.out.reset with
      | (.error e, out) => some (.error e, { hs with out }, buf)
      | (.ok _, out) => some (.ok mode, { hs with out, state := .serverWaitC2 }, buf)

/-! What a verifier of the other side computes. -/

def offsetIn (buf : List UInt8) (base : Nat) : Nat :=
  base + 4 + (((buf.drop base).take 4).map UInt8.toNat).sum % 728

def digestIn (buf : List UInt8) (base : Nat) : List UInt8 :=
  (buf.drop (offsetIn buf base)).take digestLen

/-- The digest is the HMAC of all the other bytes. -/
def DigestValid (key buf : List UInt8) (base : Nat) : Prop :=
  digestIn buf base = Sha2.hmac key
    (buf.take (offsetIn buf base) ++ buf.drop (offsetIn buf base + digestLen))

instance (key buf : List UInt8) (base : Nat) : Decidable (DigestValid key buf base) :=
  inferInstanceAs (Decidable (_ = _))

def requestedBase (c1 : List UInt8) : Option Nat :=
  if (c1.drop 4).take 4 = [0, 0, 0, 0] then none
  else digestBlockBases.find? (fun base => DigestValid fpKeyText c1 base)

/-- The last 32 bytes are the HMAC of the others under a key derived from the digest of C1. -/
def S2Signed (c1Digest s2 : List UInt8) : Prop :=
  s2.drop (handshakeSize - digestLen) =
    Sha2.hmac (Sha2.hmac (fmsKeyText ++ handshakeKeyTail) c1Digest)
      (s2.take (handshakeSize - digestLen))

structure Answers (c1 s1 s2 : List UInt8) (mode : HandshakeMode) : Prop where
  s1Length : s1.length = handshakeSize
  s2Length : s2.length = handshakeSize
  digest : ∀ base, requestedBase c1 = some base → mode = .digest base ∧
    DigestValid fmsKeyText s1 base ∧ S2Signed (digestIn c1 base) s2
  plain : requestedBase c1 = none → (∀ base, mode ≠ .digest base) ∧
    s2.take 4 = c1.take 4 ∧ s2.drop 8 = c1.drop 8

end Handshake

end LibRtmp
