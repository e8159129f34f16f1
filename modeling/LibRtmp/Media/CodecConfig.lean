import LibRtmp.Buffer.Raw
import LibRtmp.Media.InitCache

/-! The validators of codec configuration records with the positions they keep, and what they are
to accept. -/
namespace LibRtmp.CodecConfig

def skipParamSet (record : List UInt8) (pos : Nat) : Option Nat := do
  let lenEnd ← checkedAdd pos 2
  let hi ← record[pos]?
  let lo ← record[pos + 1]?
  let len := Bytes.ofBe [hi, lo]
  if len = 0 then none
  else do
    let stop ← checkedAdd lenEnd len
    if stop ≤ record.length then some stop else none

def skipParamSets (record : List UInt8) : Nat → Nat → Option Nat
  | 0, pos => some pos
  | n + 1, pos => (skipParamSet record pos).bind (skipParamSets record n)

def validateAvcExtension (ext : List UInt8) : Bool :=
  if ext = [] then true
  else
    match ext[3]? with
    | none => false
    | some numSpsExt => (skipParamSets ext numSpsExt.toNat 4).isSome

def validateAvcRecord (record : List UInt8) : Call Bool :=
  if record.length < 7 then some false
  else do
    let version ← record[0]?
    if version ≠ 1 then some false
    else do
      let flags ← record[5]?
      let numSps := flags.toNat % 32
      if numSps = 0 then some false
      else
        match skipParamSets record numSps 6 with
        | none => some false
        | some pos =>
          match record[pos]? with
          | none => some false
          | some numPps =>
            if numPps = 0 then some false
            else
              match skipParamSets record numPps.toNat (pos + 1) with
              | none => some false
              | some pos => do
                let ext ← sliceRange record pos record.length
                some (validateAvcExtension ext)

def countNal (nalType : Nat) (counts : Nat × Nat) : Nat × Nat :=
  if nalType = hevcNalSps then (counts.1 + 1, counts.2)
  else if nalType = hevcNalPps then (counts.1, counts.2 + 1)
  else counts

def hevcUnits (record : List UInt8) (nalType : Nat) : Nat → Nat → Nat × Nat →
    Option (Nat × (Nat × Nat))
  | 0, pos, counts => some (pos, counts)
  | n + 1, pos, counts => (skipParamSet record pos).bind (fun next =>
      hevcUnits record nalType n next (countNal nalType counts))

def hevcArrays (record : List UInt8) : Nat → Nat → Nat × Nat → Option (Nat × Nat)
  | 0, _, counts => some counts
  | n + 1, pos, counts => do
    let hdr ← record[pos]?
    let hi ← record[pos + 1]?
    let lo ← record[pos + 2]?
    let (pos, counts) ← hevcUnits record (hdr.toNat % 64) (Bytes.ofBe [hi, lo]) (pos + 3) counts
    hevcArrays record n pos counts

def validateHevcRecord (record : List UInt8) : Call Bool :=
  if record.length ≤ 22 then some false
  else do
    let version ← record[0]?
    if version ≠ 1 then some false
    else do
      let numArrays ← record[22]?
      match hevcArrays record numArrays.toNat 23 (0, 0) with
      | none => some false
      | some counts => some (0 < counts.1 && 0 < counts.2)

/-! The records. -/

/-- Parameter sets, none of them empty, each with its length in two bytes. -/
structure ParamSets where
  units : List (List UInt8)
  nonempty : ∀ u ∈ units, u ≠ []
  sized : ∀ u ∈ units, u.length < 256 ^ 2

namespace ParamSets

def bytes (sets : ParamSets) : List UInt8 :=
  sets.units.flatMap (fun u => Bytes.toBe 2 u.length ++ u)

def count (sets : ParamSets) : Nat := sets.units.length

end ParamSets

/-- Nothing, or at least four bytes, the last of them a count, and that many parameter sets. -/
inductive AvcExtension : List UInt8 → Prop where
  | absent : AvcExtension []
  | present (chroma lumaDepth chromaDepth k : UInt8) (sets : ParamSets)
    (h : sets.count = k.toNat) (rest : List UInt8) :
    AvcExtension (chroma :: lumaDepth :: chromaDepth :: k :: (sets.bytes ++ rest))

/-- Version 1, the first count in the low five bits of the sixth byte, both counts positive. -/
inductive AvcRecord : List UInt8 → Prop where
  | mk (profile compatibility level lengthSize flags k : UInt8) (sps pps : ParamSets)
    (hsps : sps.count = flags.toNat % 32) (hsome : 1 ≤ sps.count)
    (hpps : pps.count = k.toNat) (hsome' : 1 ≤ pps.count) {ext : List UInt8}
    (hext : AvcExtension ext) :
    AvcRecord (1 :: profile :: compatibility :: level :: lengthSize :: flags ::
      (sps.bytes ++ k :: (pps.bytes ++ ext)))

structure NalArray where
  header : UInt8
  sets : ParamSets
  counted : sets.count < 256 ^ 2

namespace NalArray

def bytes (a : NalArray) : List UInt8 := a.header :: (Bytes.toBe 2 a.sets.count ++ a.sets.bytes)

def nalType (a : NalArray) : Nat := a.header.toNat % 64

end NalArray

def HasUnit (nalType : Nat) (arrays : List NalArray) : Prop :=
  ∃ a ∈ arrays, a.nalType = nalType ∧ 1 ≤ a.sets.count

/-- Version 1, then 21 bytes, a count, that many arrays, and whatever follows. -/
inductive HevcRecord : List UInt8 → Prop where
  | mk {fixed : List UInt8} (hfixed : fixed.length = 21) (k : UInt8) (arrays : List NalArray)
    (hcount : arrays.length = k.toNat) (hsps : HasUnit hevcNalSps arrays)
    (hpps : HasUnit hevcNalPps arrays) (rest : List UInt8) :
    HevcRecord (1 :: (fixed ++ k :: (arrays.flatMap NalArray.bytes ++ rest)))

end LibRtmp.CodecConfig
