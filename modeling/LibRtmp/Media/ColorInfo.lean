import LibRtmp.Amf.Grammar
import LibRtmp.Lib.Double

namespace LibRtmp

open Actions Amf0

structure HdrInfo where
  colorPrimaries : Nat
  transferChars : Nat
  matrixCoeffs : Nat
  deriving DecidableEq, Repr

def resetHdrInfo : HdrInfo := ⟨1, 1, 1⟩

inductive ColorKey where
  | colorPrimaries | transferCharacteristics | matrixCoefficients
  deriving DecidableEq, Repr

namespace ColorKey

def name : ColorKey → String
  | colorPrimaries => "colorPrimaries"
  | transferCharacteristics => "transferCharacteristics"
  | matrixCoefficients => "matrixCoefficients"

def ofKey (key : List UInt8) : Option ColorKey :=
  [colorPrimaries, transferCharacteristics, matrixCoefficients].find? (fun k =>
    key == k.name.toUTF8.data.toList)

end ColorKey

def colorInfoKey : List UInt8 := "colorInfo".toUTF8.data.toList

def colorConfigKey : List UInt8 := "colorConfig".toUTF8.data.toList

def isConfigKey (key : List UInt8) : Bool := key == colorConfigKey || key == colorInfoKey

def HdrInfo.set (hdr : HdrInfo) (key : ColorKey) (value : Nat) : HdrInfo :=
  match key with
  | .colorPrimaries => { hdr with colorPrimaries := value }
  | .transferCharacteristics => { hdr with transferChars := value }
  | .matrixCoefficients => { hdr with matrixCoeffs := value }

structure ColorScan where
  hdr : HdrInfo := resetHdrInfo
  foundDirect : Bool := false
  nestedResult : Option HdrInfo := none

def ColorScan.finish (st : ColorScan) : ReadM HdrInfo :=
  if st.foundDirect then pure st.hdr
  else
    match st.nestedResult with
    | some inner => pure inner
    | none => throw .amf

def colorNumber (bits : Nat) : Option Nat := Double.toNatUpTo 65535 bits

/-- Scan the value of a member; `scan` reads a nested object, if a level is left for it. -/
def scanValue (scan : Option (ReadM HdrInfo)) (next : ColorScan → ReadM HdrInfo) (st : ColorScan)
    (key : List UInt8) (ty : Amf0Type) : ReadM HdrInfo := do
  let b ← get
  if key = colorInfoKey ∧ (ty = .undefined ∨ ty = .object ∧ isObjectEnd b) then
    pure resetHdrInfo
  else
    match ty, ColorKey.ofKey key, scan with
    | .number, some color, _ => do
      let bits ← readNumber
      match colorNumber bits with
      | none => throw .amf
      | some value => next { st with hdr := st.hdr.set color value, foundDirect := true }
    | .object, _, some nested =>
      if isConfigKey key then do
        match ← attempt nested with
        | .ok inner => next { st with nestedResult := some inner }
        | .error _ => next st
      else do
        skipValueDepth maxSkipDepth .object
        next st
    | ty, _, _ => do
      skipValueDepth maxSkipDepth ty
      next st

def scanMembers (scan : Option (ReadM HdrInfo)) (keys : Nat) (st : ColorScan) : ReadM HdrInfo := do
  let b ← get
  if isObjectEnd b then do
    let _ ← readBytes .io 3
    st.finish
  else
    match keys with
    | 0 => throw .amf
    | keys + 1 => do
      let key ← readObjectKey 64
      let ty ← readType
      scanValue scan (scanMembers scan keys) st key ty

def scanObjectForColorInfo : Nat → ReadM HdrInfo
  | 0 => scanMembers none maxObjectKeys {}
  | depthRemaining + 1 =>
    scanMembers (some (scanObjectForColorInfo depthRemaining)) maxObjectKeys {}

def readNamedColorInfo : ReadM HdrInfo := do
  let nameLen ← readU16
  if nameLen ≠ 9 then throw .amf
  else do
    let name ← readBytes .io 9
    if name ≠ colorInfoKey then throw .amf
    else do
      let ty ← readType
      let b ← get
      if ty = .undefined then pure resetHdrInfo
      else if ty ≠ .object then throw .amf
      else if isObjectEnd b then pure resetHdrInfo
      else scanObjectForColorInfo 2

def readColorInfo : ReadM HdrInfo := do
  let ty ← readType
  match ty with
  | .string => readNamedColorInfo
  | .object => scanObjectForColorInfo 2
  | _ => throw .amf

def parseColorInfoAmf (data : List UInt8) (h : data.length ≤ isizeMax) : Option HdrInfo :=
  ((readColorInfo).on (Buffer.fromSlice data h)).1.toOption

/-! What a color metadata object means. -/

mutual

/-- An AMF0 value, taken apart as far as color metadata goes. -/
inductive ColorTree where
  | number (bits : UInt64)
  | undefined
  | object (members : ColorFields)
  | other (ty : Amf0Type) (body : List UInt8)

inductive ColorFields where
  | nil
  | cons (key : List UInt8) (value : ColorTree) (members : ColorFields)

end

abbrev ColorMember := List UInt8 × ColorTree

def ColorFields.toList : ColorFields → List ColorMember
  | .nil => []
  | .cons key value members => (key, value) :: members.toList

mutual

def ColorTree.bytes : ColorTree → List UInt8
  | .number bits => Amf0Type.number.marker :: Bytes.toBe 8 bits.toNat
  | .undefined => [Amf0Type.undefined.marker]
  | .object members => Amf0Type.object.marker :: members.bytes
  | .other ty body => ty.marker :: body

def ColorFields.bytes : ColorFields → List UInt8
  | .nil => objectEndMarker
  | .cons key value members => Bytes.toBe 2 key.length ++ (key ++ (value.bytes ++ members.bytes))

end

mutual

def ColorTree.Fits : Nat → ColorTree → Prop
  | _, .number _ => True
  | _, .undefined => True
  | 0, .object _ => False
  | depth + 1, .object members => members.toList.length ≤ maxObjectKeys ∧ members.Fits depth
  | depth, .other ty body =>
    Body depth ty body ∧ ty ≠ .number ∧ ty ≠ .undefined ∧ ty ≠ .object

def ColorFields.Fits : Nat → ColorFields → Prop
  | _, .nil => True
  | depth, .cons key value members =>
    key.length < 64 ∧ value.Fits depth ∧ members.Fits depth ∧
      (ColorKey.ofKey key ≠ none → ∀ bits, value = .number bits →
        Double.toInt? bits.toNat ≠ none)

end

def ColorMember.own : ColorMember → Option (ColorKey × Option Nat)
  | (key, .number bits) =>
    (ColorKey.ofKey key).map (fun color =>
      (color, ((Double.toInt? bits.toNat).filter (fun n => 0 ≤ n ∧ n ≤ 65535)).map Int.toNat))
  | _ => none

/-- An out-of-range color number, or an undefined or empty `colorInfo`, decides its object. -/
def ColorMember.decides (m : ColorMember) : Option (Option HdrInfo) :=
  match m.own with
  | some (_, none) => some none
  | some (_, some _) => none
  | none =>
    match m with
    | (key, .undefined) => if key = colorInfoKey then some (some resetHdrInfo) else none
    | (key, .object .nil) => if key = colorInfoKey then some (some resetHdrInfo) else none
    | _ => none

def ownValue (members : List ColorMember) (color : ColorKey) : Option Nat :=
  (members.filterMap (fun m => m.own.bind (fun o => if o.1 = color then o.2 else none))).getLast?

def ownInfo (members : List ColorMember) : HdrInfo where
  colorPrimaries := (ownValue members .colorPrimaries).getD 1
  transferChars := (ownValue members .transferCharacteristics).getD 1
  matrixCoeffs := (ownValue members .matrixCoefficients).getD 1

def ColorMember.config : ColorMember → Option (List ColorMember)
  | (key, .object members) => if isConfigKey key then some members.toList else none
  | _ => none

def validConfig (members : List ColorMember) : Bool :=
  members.all (fun m => m.own.all (fun o => o.2.isSome))

/-- What the first deciding member gives, or its own numbers, or the last valid nested reading. -/
def colorReading : Nat → List ColorMember → Option HdrInfo
  | depth, members =>
    match members.findSome? ColorMember.decides with
    | some reading => reading
    | none =>
      if members.any (fun m => m.own.isSome) then some (ownInfo members)
      else
        match depth with
        | 0 => none
        | depth + 1 =>
          ((members.filterMap ColorMember.config).filter validConfig).getLast?.bind
            (colorReading depth)

/-- No nested configuration object, up to `depth` levels down, has a member that decides it. -/
def ScansThrough : Nat → List ColorMember → Prop
  | 0, _ => True
  | depth + 1, members => ∀ m ∈ members, ∀ inner, m.config = some inner →
      (∀ m' ∈ inner, m'.decides = none) ∧ ScansThrough depth inner

def undecidedPart (members : List ColorMember) : List ColorMember :=
  members.takeWhile (fun m => m.decides.isNone)

def carriesColor : Nat → List ColorMember → Bool
  | depth, members => members.any (fun m => m.own.isSome) ||
    match depth with
    | 0 => false
    | depth + 1 => (members.filterMap ColorMember.config).any (carriesColor depth)

/-- At each level the last nested object carries a color number, or none of them does. -/
def lastCarries : Nat → List ColorMember → Bool
  | 0, _ => true
  | depth + 1, members => members.any (fun m => m.own.isSome) ||
    match (members.filterMap ColorMember.config).getLast? with
    | none => true
    | some last =>
      if carriesColor depth last then lastCarries depth last
      else (members.filterMap ColorMember.config).all (fun inner => !carriesColor depth inner)

end LibRtmp
