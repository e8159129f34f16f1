import LibRtmp.Lib.Bytes
import LibRtmp.Types

namespace LibRtmp

def highNibble (b : UInt8) : Nat := b.toNat / 16

def lowNibble (b : UInt8) : Nat := b.toNat % 16

def ofNibbles (high low : Nat) : UInt8 := UInt8.ofNat (high * 16 + low)

structure FourCc where
  a : UInt8
  b : UInt8
  c : UInt8
  d : UInt8
  deriving DecidableEq, Repr

namespace FourCc

def bytes (cc : FourCc) : List UInt8 := [cc.a, cc.b, cc.c, cc.d]

def read : List UInt8 → Option (FourCc × List UInt8)
  | a :: b :: c :: d :: rest => some (⟨a, b, c, d⟩, rest)
  | _ => none

def avc1 : FourCc := ⟨0x61, 0x76, 0x63, 0x31⟩
def hvc1 : FourCc := ⟨0x68, 0x76, 0x63, 0x31⟩
def vvc1 : FourCc := ⟨0x76, 0x76, 0x63, 0x31⟩
def mp4a : FourCc := ⟨0x6D, 0x70, 0x34, 0x61⟩
def opus : FourCc := ⟨0x4F, 0x70, 0x75, 0x73⟩

end FourCc

def ertmpPacketTypeModex : Nat := 7
def ertmpPacketTypeMetadata : Nat := 4
def ertmpAudioPacketTypeMetadata : Nat := 3
def ertmpAudioPacketTypeMultichannel : Nat := 4
def ertmpAudioPacketTypeMultitrack : Nat := 5
def ertmpVideoPacketTypeMultitrack : Nat := 6
def videoFrameTypeCommand : Nat := 5

/-- Legacy audio formats set bit 7 too; only the reserved format 9 is enhanced audio. -/
def isEnhancedTag (frameType : FrameType) (b0 : UInt8) : Bool :=
  8 ≤ highNibble b0 && (frameType != .audio || highNibble b0 == 9)

/-! ModEx wrappers. -/

structure ModexLayer where
  modexType : Nat
  nextPacketType : Nat
  data : List UInt8
  rest : List UInt8

def modexLayerOf (size : Nat) (bytes : List UInt8) : Option ModexLayer :=
  match bytes.drop size with
  | [] => none
  | option :: rest => some ⟨highNibble option, lowNibble option, bytes.take size, rest⟩

/-- Parse one layer; the size is one less than it says, and 0xFF stands for two more bytes. -/
def parseModexLayer : List UInt8 → Option ModexLayer
  | [] => none
  | size :: rest =>
    if size = 0xFF then
      match rest with
      | hi :: lo :: rest => modexLayerOf (Bytes.ofBe [hi, lo] + 1) rest
      | _ => none
    else modexLayerOf (size.toNat + 1) rest

def maxModexChainLayers : Nat := 32

def peelModex (high : Nat) : Nat → List UInt8 → Option (List UInt8)
  | 0, _ => none
  | layers + 1, bytes =>
    match parseModexLayer bytes with
    | none => none
    | some layer =>
      if layer.nextPacketType = ertmpPacketTypeModex then peelModex high layers layer.rest
      else some (ofNibbles high layer.nextPacketType :: layer.rest)

def isModexTag (frameType : FrameType) (b0 : UInt8) : Bool :=
  isEnhancedTag frameType b0 && lowNibble b0 == ertmpPacketTypeModex

/-- The packet inside a chain of ModEx wrappers, if there is one that ends within the limits. -/
def normalizeModexPayload (frameType : FrameType) : List UInt8 → Option (List UInt8)
  | [] => none
  | b0 :: rest =>
    if isModexTag frameType b0 then peelModex (highNibble b0) maxModexChainLayers rest else none

/-! Multitrack containers. -/

structure MediaTrackSlice where
  trackId : UInt8
  packetType : Nat
  fourcc : FourCc
  payload : List UInt8

def multitrackPacketType : FrameType → Option Nat
  | .video => some ertmpVideoPacketTypeMultitrack
  | .audio => some ertmpAudioPacketTypeMultitrack
  | _ => none

/-- A video command has no packet type, whatever its low nibble. -/
def isVideoCommandTag (b0 : UInt8) : Bool :=
  8 ≤ highNibble b0 && highNibble b0 % 8 == videoFrameTypeCommand

def isMultitrackContainer (frameType : FrameType) : List UInt8 → Bool
  | [] => false
  | b0 :: _ =>
    isEnhancedTag frameType b0 && !(frameType == .video && isVideoCommandTag b0) &&
      multitrackPacketType frameType == some (lowNibble b0)

def readTrack (oneTrack : Bool) : List UInt8 → Option (UInt8 × List UInt8 × List UInt8)
  | [] => none
  | trackId :: rest =>
    if oneTrack then some (trackId, rest, [])
    else
      match rest with
      | a :: b :: c :: rest =>
        let size := Bytes.ofBe [a, b, c]
        if size ≤ rest.length then some (trackId, rest.take size, rest.drop size) else none
      | _ => none

def maxMultitrackSubtracks : Nat := 4096

def readTracks (shared : Option FourCc) (oneTrack : Bool) (packetType : Nat) :
    Nat → List UInt8 → Option (List MediaTrackSlice)
  | 0, _ => none
  | left + 1, bytes =>
    match shared.elim (FourCc.read bytes) (fun cc => some (cc, bytes)) with
    | none => none
    | some (fourcc, bytes) =>
      match readTrack oneTrack bytes with
      | none => none
      | some (trackId, payload, rest) =>
        let track : MediaTrackSlice := ⟨trackId, packetType, fourcc, payload⟩
        if oneTrack || rest.isEmpty then some [track]
        else (readTracks shared oneTrack packetType left rest).map (fun tracks => track :: tracks)

def multitrackTracks (frameType : FrameType) (payload : List UInt8) :
    Option (List MediaTrackSlice) :=
  if ¬ isMultitrackContainer frameType payload then none
  else
    match payload with
    | _ :: kind :: rest =>
      if rest = [] ∨ highNibble kind > 2 then none
      else if highNibble kind = 2 then
        readTracks none false (lowNibble kind) maxMultitrackSubtracks rest
      else
        match FourCc.read rest with
        | none => none
        | some (cc, rest) =>
          readTracks (some cc) (highNibble kind == 0) (lowNibble kind) maxMultitrackSubtracks rest
    | _ => none

def multitrackAny (frameType : FrameType) (payload : List UInt8) (p : MediaTrackSlice → Bool) :
    Bool :=
  (multitrackTracks frameType payload).any (fun tracks => tracks.any p)

/-! Enhanced and legacy tag headers. -/

structure VideoHeader where
  isExHeader : Bool := false
  packetType : Nat := 0
  fourcc : FourCc := ⟨0, 0, 0, 0⟩
  frameType : Nat := 0
  headerSize : Nat := 0

def isCompositionTimeCodec (fourcc : FourCc) : Bool :=
  fourcc == .avc1 || fourcc == .hvc1 || fourcc == .vvc1

def exvideoParse : List UInt8 → Except ErrorCode VideoHeader
  | [] => .error .io
  | b0 :: rest =>
    if highNibble b0 < 8 then
      .ok { frameType := highNibble b0
            headerSize := if lowNibble b0 = 7 ∧ rest.length ≥ 4 then 5 else 1 }
    else
      let frameType := highNibble b0 % 8
      let packetType := lowNibble b0
      if frameType = videoFrameTypeCommand ∧ packetType ≠ ertmpPacketTypeMetadata ∧
          packetType ≠ ertmpPacketTypeModex then
        if rest = [] then .error .io
        else .ok { isExHeader := true, packetType, frameType, headerSize := 2 }
      else
        match FourCc.read rest with
        | none => .error .io
        | some (fourcc, rest) =>
          if packetType = 1 ∧ isCompositionTimeCodec fourcc then
            if rest.length < 3 then .error .io
            else .ok { isExHeader := true, packetType, fourcc, frameType, headerSize := 8 }
          else .ok { isExHeader := true, packetType, fourcc, frameType, headerSize := 5 }

inductive AudioCodec where
  | pcm | adpcm | mp3 | pcmLe | nelly16k | nelly8k | nelly | g711A | g711U | aac | speex | opus
  deriving DecidableEq, Repr

structure AudioHeader where
  isExHeader : Bool := false
  packetType : Nat := 0
  fourcc : FourCc := ⟨0, 0, 0, 0⟩
  audioCodec : AudioCodec := .pcm
  aacPacketType : UInt8 := 0
  headerSize : Nat := 0

def legacyAudioCodec : Nat → Option AudioCodec
  | 0 => some .pcm
  | 1 => some .adpcm
  | 2 => some .mp3
  | 3 => some .pcmLe
  | 4 => some .nelly16k
  | 5 => some .nelly8k
  | 6 => some .nelly
  | 7 => some .g711A
  | 8 => some .g711U
  | 10 => some .aac
  | 11 => some .speex
  | 14 => some .mp3
  | _ => none

def exaudioParse : List UInt8 → Except ErrorCode AudioHeader
  | [] => .error .io
  | b0 :: rest =>
    if highNibble b0 = 9 then
      match FourCc.read rest with
      | none => .error .io
      | some (fourcc, _) =>
        .ok { isExHeader := true, packetType := lowNibble b0, fourcc, headerSize := 5 }
    else
      match legacyAudioCodec (highNibble b0) with
      | none => .error .unsupported
      | some audioCodec =>
        match audioCodec, rest with
        | .aac, aacPacketType :: _ => .ok { audioCodec, aacPacketType, headerSize := 2 }
        | _, _ => .ok { audioCodec, headerSize := 1 }

end LibRtmp
