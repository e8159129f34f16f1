import LibRtmp.Amf.Read
import LibRtmp.Buffer.Fill
import LibRtmp.Lib.Double
import LibRtmp.Media.Tags

/-! The capabilities of a `connect`, and the readers of their AMF0 values. A double is given by
its bits, and an `i32` by the `u32` of the same bits. -/
namespace LibRtmp.Ertmp

open Actions Amf0

def maxFourccs : Nat := 16
def maxCapsBlobBytes : Nat := 4096

def capsExMaskReconnect : UInt32 := 0x01
def capsExMaskMultitrack : UInt32 := 0x02
def capsExMaskModex : UInt32 := 0x04
def capsExMaskTimestampNano : UInt32 := 0x08
def capsExMaskServerDefault : UInt32 :=
  capsExMaskMultitrack ||| capsExMaskModex ||| capsExMaskTimestampNano

def fourCcInfoCanDecode : UInt32 := 0x01
def fourCcInfoCanEncode : UInt32 := 0x02
def fourCcInfoCanForward : UInt32 := 0x04
def fourCcInfoAll : UInt32 := fourCcInfoCanDecode ||| fourCcInfoCanEncode ||| fourCcInfoCanForward

abbrev FourCcList := List FourCc

abbrev VideoFourCcInfoMap := List (FourCc × UInt32)

structure CapsExit where
  version : UInt32 := 0
  videoCodec32 : UInt32 := 0
  audioCodec32 : UInt32 := 0
  deriving DecidableEq, Repr

structure Reconnect where
  replay : UInt32 := 0
  limit : UInt32 := 0
  deriving DecidableEq, Repr

def u32OfBe (d : List UInt8) : UInt32 := UInt32.ofNat (Bytes.ofBe d)

def wildcardEntry : FourCc := ⟨0x2A, 0, 0, 0⟩

def fourccEntry (cc : List UInt8) : Option FourCc :=
  if cc = [0x2A] then some wildcardEntry else (FourCc.read cc).map Prod.fst

section FourCcLists

def fourccListInit : FillM FourCcList Unit := filling (fun _ => [])

def fourccListAdd (cc : List UInt8) : FillM FourCcList Unit := do
  let s ← get
  if s.2.length ≥ maxFourccs then throw .io
  else
    match fourccEntry cc with
    | some entry => filling (fun list => list ++ [entry])
    | none => throw .io

def fourccListEntries : Nat → List UInt8 → FillM FourCcList Unit
  | 0, _ => pure ()
  | count + 1, data =>
    let slen := Bytes.ofBe (data.take 2)
    let rest := data.drop 2
    if data.length < 2 then pure ()
    else if (slen ≠ 1 ∧ slen ≠ 4) ∨ rest.length < slen then pure ()
    else do
      fourccListAdd (rest.take slen)
      fourccListEntries count (rest.drop slen)

def fourccListParse (data : List UInt8) : FillM FourCcList Unit :=
  if data.length < 4 then throw .io
  else do
    fourccListInit
    fourccListEntries (min (Bytes.ofBe (data.take 4)) maxFourccs) (data.drop 4)

end FourCcLists

section Blobs

def readAmfBinaryBlob (ty : Amf0Type) : ReadM (List UInt8) := do
  let len ← match ty with
    | .longString => readBe .amf 4
    | .string => readBe .amf 2
    | _ => throw .amf
  let b ← get
  if len > maxCapsBlobBytes ∨ b.available < len then throw .amf else readBytes .amf len

def wholeU32 (e : ErrorCode) (bits : Nat) : ReadM UInt32 :=
  match Double.toInt? bits with
  | none => throw e
  | some n => if 0 ≤ n ∧ n ≤ 4294967295 then pure (UInt32.ofNat n.toNat) else throw e

def readCode (len : Nat) : ReadM UInt32 := do
  let cc ← readBytes .amf 4
  modify (fun b => if len > 4 then b.drain (len - 4) else b)
  pure (u32OfBe cc)

def readFourccNumber : ReadM UInt32 := do
  let ty ← readType
  match ty with
  | .number => do
    let bits ← readNumber
    wholeU32 .protocol bits
  | .string => do
    let len ← readBe .amf 2
    let b ← get
    if (len < 4 ∨ len > maxCapsBlobBytes) ∨ b.available < len then throw .amf else readCode len
  | _ => throw .amf

end Blobs

section Readers

def addFourCcString (cc : List UInt8) : FillM FourCcList Unit :=
  if cc = [0x2A] ∨ cc.length ≥ 4 then fourccListAdd cc else pure ()

def readNames {T : Type} (add : List UInt8 → FillM T Unit) : Nat → FillM T Unit
  | 0 => pure ()
  | count + 1 => do
    let cc ← reading (readString 8)
    add cc
    readNames add count

def readNameArray {T : Type} (add : List UInt8 → FillM T Unit) : FillM T Unit := do
  let count ← reading (readBe .amf 4)
  if count > maxFourccs then throw .amf else readNames add count

def readFourCcStrictArray : FillM FourCcList Unit := readNameArray addFourCcString

def readFourCcListAmf : FillM FourCcList Unit := do
  fourccListInit
  let ty ← reading readType
  match ty with
  | .strictArray => readFourCcStrictArray
  | .longString => do
    let data ← reading (readAmfBinaryBlob ty)
    fourccListParse data
  | _ => throw .amf

def addVideoMapEntry (key : List UInt8) (mask : UInt32) : FillM VideoFourCcInfoMap Unit := do
  let s ← get
  if s.2.length ≥ maxFourccs then throw .amf
  else
    match fourccEntry key with
    | some entry => filling (fun map => map ++ [(entry, mask)])
    | none => throw .amf

def walkEntries (extra : Nat) : Nat → List UInt8 → Option (List UInt8)
  | 0, data => some data
  | count + 1, data =>
    let slen := Bytes.ofBe (data.take 2)
    let rest := data.drop 2
    if data.length < 2 then none
    else if (slen ≠ 1 ∧ slen ≠ 4) ∨ rest.length < slen + extra then none
    else walkEntries extra count (rest.drop (slen + extra))

def videoFourccInfoMapEntries (legacyKeyOnly : Bool) :
    Nat → List UInt8 → FillM VideoFourCcInfoMap Unit
  | 0, _ => pure ()
  | count + 1, data =>
    let slen := Bytes.ofBe (data.take 2)
    let rest := data.drop 2
    if data.length < 2 then throw .io
    else if (slen ≠ 1 ∧ slen ≠ 4) ∨ rest.length < slen then throw .io
    else
      match fourccEntry (rest.take slen) with
      | none => throw .io
      | some entry =>
        let rest := rest.drop slen
        if legacyKeyOnly then do
          filling (fun map => map ++ [(entry, fourCcInfoAll)])
          videoFourccInfoMapEntries legacyKeyOnly count rest
        else if rest.length < 4 then throw .io
        else do
          filling (fun map => map ++ [(entry, u32OfBe (rest.take 4))])
          videoFourccInfoMapEntries legacyKeyOnly count (rest.drop 4)

def videoFourccInfoMapParse (data : List UInt8) : FillM VideoFourCcInfoMap Unit :=
  if data.length < 4 then throw .io
  else do
    filling (fun _ => [])
    let count := min (Bytes.ofBe (data.take 4)) maxFourccs
    -- Masks are preferred when the lengths fit both forms.
    if walkEntries 4 count (data.drop 4) = some [] then
      videoFourccInfoMapEntries false count (data.drop 4)
    else if walkEntries 0 count (data.drop 4) = some [] then
      videoFourccInfoMapEntries true count (data.drop 4)
    else throw .io

def readMembers {T : Type} (member : List UInt8 → FillM T Unit) (keys : Nat) : FillM T Unit := do
  let s ← get
  if isObjectEnd s.1 then do
    let _ ← reading (readBytes .amf 3)
    pure ()
  else
    match keys with
    | 0 => throw .amf
    | keys + 1 => do
      let key ← reading (readObjectKey 256)
      member key
      readMembers member keys

def readVideoMapMember (key : List UInt8) : FillM VideoFourCcInfoMap Unit := do
  let ty ← reading readType
  if ty ≠ .number then throw .amf
  else do
    let bits ← reading readNumber
    match Double.toNatUpTo 4294967295 bits with
    | none => throw .amf
    | some mask => addVideoMapEntry key (UInt32.ofNat mask)

def readVideoFourccInfoMapAmf : FillM VideoFourCcInfoMap Unit := do
  filling (fun _ => [])
  let ty ← reading readType
  match ty with
  | .strictArray => readNameArray (fun cc => addVideoMapEntry cc fourCcInfoAll)
  | .longString => do
    let data ← reading (readAmfBinaryBlob ty)
    videoFourccInfoMapParse data
  | .object => readMembers readVideoMapMember maxObjectKeys
  | .ecmaArray => do
    let _ ← reading (readBe .amf 4)
    readMembers readVideoMapMember maxObjectKeys
  | _ => throw .amf

structure CapsEx where
  caps : CapsExit := {}
  mask : UInt32 := 0
  deriving DecidableEq, Repr

def capsExitParse (data : List UInt8) : FillM CapsEx Unit :=
  if data.length < 8 then throw .io
  else filling (fun c => { c with
    caps := ⟨1, u32OfBe (data.take 4), u32OfBe ((data.drop 4).take 4)⟩ })

def isVideoCodecKey (key : List UInt8) : Bool :=
  key == "videoCodecId".toUTF8.data.toList || key == "videoCodecFourCC".toUTF8.data.toList

def isAudioCodecKey (key : List UInt8) : Bool :=
  key == "audioCodecId".toUTF8.data.toList || key == "audioCodecFourCC".toUTF8.data.toList

def readCapsExMember (key : List UInt8) : FillM CapsEx Unit :=
  if isVideoCodecKey key then do
    let codec ← reading readFourccNumber
    filling (fun c => { c with caps := { c.caps with videoCodec32 := codec } })
  else if isAudioCodecKey key then do
    let codec ← reading readFourccNumber
    filling (fun c => { c with caps := { c.caps with audioCodec32 := codec } })
  else reading skipValue

/-- Read a `capsEx`, up to its mask. The legacy forms carry codecs, and stand for the default. -/
def readCapsExMask : FillM CapsEx UInt32 := do
  let ty ← reading readType
  match ty with
  | .number => do
    let bits ← reading readNumber
    reading (wholeU32 .amf bits)
  | .longString => do
    let data ← reading (readAmfBinaryBlob ty)
    capsExitParse data
    pure capsExMaskServerDefault
  | .object => do
    filling (fun c => { c with caps := { c.caps with version := 1 } })
    readMembers readCapsExMember maxObjectKeys
    pure capsExMaskServerDefault
  | _ => throw .amf

def readCapsExAmf : FillM CapsEx Unit := do
  let mask ← readCapsExMask
  filling (fun c => { c with mask })

def reconnectParse (data : List UInt8) : FillM Reconnect Unit :=
  if data.length ≠ 8 then throw .io
  else filling (fun _ => ⟨u32OfBe (data.take 4), u32OfBe (data.drop 4)⟩)

def readReconnectAmf : FillM Reconnect Unit := do
  let ty ← reading readType
  let data ← reading (readAmfBinaryBlob ty)
  reconnectParse data

end Readers

/-- What a `connect` says. Texts are given by their bytes. -/
structure ConnectInfo where
  name : List UInt8 := []
  transactionId : Nat := 0
  app : List UInt8 := []
  tcUrl : List UInt8 := []
  pageUrl : List UInt8 := []
  swfUrl : List UInt8 := []
  flashVer : List UInt8 := []
  audioCodecs : Int := 0
  videoCodecs : Int := 0
  fourCcList : FourCcList := []
  capsEx : CapsEx := {}
  videoFourCcInfoMap : VideoFourCcInfoMap := []
  reconnect : Reconnect := {}
  hasFourCcList : Bool := false
  hasCapsEx : Bool := false
  hasVideoFourCcInfoMap : Bool := false
  hasReconnect : Bool := false
  deriving DecidableEq, Repr

structure NegotiatedCaps where
  fourCcList : FourCcList := []
  videoFourCcInfoMap : VideoFourCcInfoMap := []
  reconnect : Reconnect := {}
  capsExMask : UInt32 := 0
  hasFourCcList : Bool := false
  hasCapsEx : Bool := false
  hasVideoFourCcInfoMap : Bool := false
  hasReconnect : Bool := false
  multitrackEnabled : Bool := false
  deriving DecidableEq, Repr

section Negotiation

def supportedFourccs : List String :=
  ["*", "avc1", "hvc1", "av01", "vp09", "mp4a", "Opus", "ac-3", "ec-3", ".mp3", "fLaC"]

def fourCcSupported (cc : List UInt8) : Bool :=
  supportedFourccs.any (fun s => cc == s.toUTF8.data.toList)

def fourccEntryBytes (entry : FourCc) : List UInt8 :=
  if entry.a = 0x2A then [0x2A] else entry.bytes

def negotiateFourCc (out : FourCcList) (entry : FourCc) : FourCcList :=
  if fourCcSupported (fourccEntryBytes entry) ∧ out.length < maxFourccs then
    out ++ (fourccEntry (fourccEntryBytes entry)).toList
  else out

def negotiateFourCcList (list : FourCcList) : FourCcList := list.foldl negotiateFourCc []

def negotiateInfo (entry : FourCc × UInt32) : Option (FourCc × UInt32) :=
  let mask := entry.2 &&& fourCcInfoCanForward
  if mask = 0 ∨ ¬ fourCcSupported (fourccEntryBytes entry.1) then none
  else (fourccEntry (fourccEntryBytes entry.1)).map (fun cc => (cc, mask))

def negotiateInfoMap (map : VideoFourCcInfoMap) : VideoFourCcInfoMap := map.filterMap negotiateInfo

def negotiateMask (requested : UInt32) (hasReconnect : Bool) : UInt32 :=
  let mask := requested &&& capsExMaskServerDefault
  if hasReconnect then mask ||| (capsExMaskReconnect &&& requested) else mask

def negotiateCaps (client : ConnectInfo) : NegotiatedCaps :=
  let list := if client.hasFourCcList then negotiateFourCcList client.fourCcList else []
  let mask := if client.hasCapsEx then negotiateMask client.capsEx.mask client.hasReconnect else 0
  let map := if client.hasVideoFourCcInfoMap then negotiateInfoMap client.videoFourCcInfoMap else []
  { fourCcList := list
    hasFourCcList := !list.isEmpty
    capsExMask := mask
    hasCapsEx := client.hasCapsEx
    multitrackEnabled := !client.hasCapsEx || mask &&& capsExMaskMultitrack != 0
    videoFourCcInfoMap := map
    hasVideoFourCcInfoMap := !map.isEmpty
    reconnect := if client.hasReconnect then client.reconnect else {}
    hasReconnect := client.hasReconnect }

def ConnectInfo.negotiated (client : ConnectInfo) : Option NegotiatedCaps :=
  if client.hasFourCcList || client.hasCapsEx || client.hasVideoFourCcInfoMap ||
      client.hasReconnect then
    some (negotiateCaps client)
  else none

end Negotiation

end LibRtmp.Ertmp
