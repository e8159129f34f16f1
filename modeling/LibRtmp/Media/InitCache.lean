import LibRtmp.Amf.Read
import LibRtmp.Media.Tags
import LibRtmp.Server.Cache

namespace LibRtmp

/-! Structural checks of codec configuration records. -/

def bitsOf (record : List UInt8) : List Bool :=
  record.flatMap (fun b => (List.range 8).map (fun i => b.toNat.testBit (7 - i)))

def readBits (count : Nat) (bits : List Bool) : Option (Nat × List Bool) :=
  if bits.length < count then none
  else some ((bits.take count).foldl (fun n b => 2 * n + b.toNat) 0, bits.drop count)

def validateAacConfig (record : List UInt8) : Bool :=
  match readBits 5 (bitsOf record) with
  | none => false
  | some (audioObjectType, bits) =>
    if audioObjectType = 0 then false
    else
      match if audioObjectType = 31 then readBits 6 bits else some (0, bits) with
      | none => false
      | some (_, bits) =>
        match readBits 4 bits with
        | none => false
        | some (frequencyIndex, bits) =>
          if frequencyIndex = 13 ∨ frequencyIndex = 14 then false
          else
            match if frequencyIndex = 15 then readBits 24 bits else some (0, bits) with
            | none => false
            | some (_, bits) => (readBits 4 bits).isSome

def skipParamSet : List UInt8 → Option (List UInt8)
  | hi :: lo :: rest =>
    let len := Bytes.ofBe [hi, lo]
    if len = 0 ∨ rest.length < len then none else some (rest.drop len)
  | _ => none

def skipParamSets : Nat → List UInt8 → Option (List UInt8)
  | 0, record => some record
  | n + 1, record => (skipParamSet record).bind (skipParamSets n)

def validateAvcExtension (ext : List UInt8) : Bool :=
  if ext = [] then true
  else
    match ext[3]? with
    | none => false
    | some numSpsExt => (skipParamSets numSpsExt.toNat (ext.drop 4)).isSome

def validateAvcRecord (record : List UInt8) : Bool :=
  if record.length < 7 ∨ record.getD 0 0 ≠ 1 then false
  else
    let numSps := (record.getD 5 0).toNat % 32
    if numSps = 0 then false
    else
      match skipParamSets numSps (record.drop 6) with
      | some (numPps :: rest) =>
        if numPps = 0 then false
        else (skipParamSets numPps.toNat rest).any validateAvcExtension
      | _ => false

def hevcNalSps : Nat := 33
def hevcNalPps : Nat := 34

def hevcArrays : Nat → Nat × Nat → List UInt8 → Option (Nat × Nat)
  | 0, counts, _ => some counts
  | n + 1, (sps, pps), hdr :: hi :: lo :: rest =>
    let nalType := hdr.toNat % 64
    let numNalus := Bytes.ofBe [hi, lo]
    (skipParamSets numNalus rest).bind (hevcArrays n
      (if nalType = hevcNalSps then (sps + numNalus, pps)
       else if nalType = hevcNalPps then (sps, pps + numNalus)
       else (sps, pps)))
  | _ + 1, _, _ => none

def validateHevcRecord (record : List UInt8) : Bool :=
  if record.length ≤ 22 ∨ record.getD 0 0 ≠ 1 then false
  else
    (hevcArrays (record.getD 22 0).toNat (0, 0) (record.drop 23)).any
      (fun counts => 0 < counts.1 && 0 < counts.2)

/-- A record of a codec without a validator only has to be there. -/
def validateConfigRecord (fourcc : FourCc) (record : List UInt8) : Bool :=
  if fourcc = .avc1 then validateAvcRecord record
  else if fourcc = .hvc1 then validateHevcRecord record
  else !record.isEmpty

def sequenceStartConfigValid (frameType : FrameType) (fourcc : FourCc) (record : List UInt8) :
    Bool :=
  if frameType = .audio ∧ fourcc = .mp4a then validateAacConfig record
  else if frameType = .audio ∧ record = [] ∧ fourcc = .opus then true
  else validateConfigRecord fourcc record

/-! Classification of frames for the init cache. -/

def multitrackHasSequenceStart (frameType : FrameType) (payload : List UInt8) : Bool :=
  multitrackAny frameType payload (fun track => track.packetType == 0)

def multitrackSequenceConfigsValid (frameType : FrameType) (payload : List UInt8) : Bool :=
  !multitrackAny frameType payload (fun track => track.packetType == 0 &&
    !sequenceStartConfigValid frameType track.fourcc track.payload)

def multitrackHasKeyframe : List UInt8 → Bool
  | b0 :: kind :: rest =>
    isMultitrackContainer .video (b0 :: kind :: rest) &&
      (lowNibble kind == 1 || lowNibble kind == 3) && highNibble b0 % 8 == 1 &&
      (multitrackTracks .video (b0 :: kind :: rest)).isSome
  | _ => false

/-- A sequence header is kept only if its configuration record is valid. -/
def sequenceHeaderKind (valid : Bool) (kind : CacheFrameKind) : CacheFrameKind :=
  if valid then kind else .liveOnly

def classifyMultitrackVideo (payload : List UInt8) : CacheFrameKind :=
  if multitrackHasSequenceStart .video payload then
    sequenceHeaderKind (multitrackSequenceConfigsValid .video payload) .videoSequenceHeader
  else if multitrackHasKeyframe payload then .videoKeyframe
  else .liveOnly

def classifyExVideo (payload : List UInt8) (hdr : VideoHeader) : CacheFrameKind :=
  if hdr.packetType = ertmpPacketTypeModex then .liveOnly
  else if hdr.packetType = 0 then
    sequenceHeaderKind (validateConfigRecord hdr.fourcc (payload.drop hdr.headerSize))
      .videoSequenceHeader
  else if (hdr.packetType = 1 ∨ hdr.packetType = 3) ∧ hdr.frameType = 1 then .videoKeyframe
  else .liveOnly

def classifyLegacyVideo (b0 : UInt8) (rest : List UInt8) : CacheFrameKind :=
  let codecId := lowNibble b0
  let avcPacketType := rest.head?
  if codecId = 7 ∧ avcPacketType = some 0 then
    sequenceHeaderKind (validateAvcRecord (rest.drop 4)) .videoSequenceHeader
  else if highNibble b0 ≠ 1 then .liveOnly
  else if codecId ≠ 7 ∨ avcPacketType = some 1 then .videoKeyframe
  else .liveOnly

def classifyVideo : List UInt8 → CacheFrameKind
  | [] => .liveOnly
  | b0 :: rest =>
    let payload := b0 :: rest
    if isVideoCommandTag b0 then .liveOnly
    else if isMultitrackContainer .video payload then classifyMultitrackVideo payload
    else
      match exvideoParse payload with
      | .error _ => .liveOnly
      | .ok hdr => if hdr.isExHeader then classifyExVideo payload hdr else classifyLegacyVideo b0 rest

def classifyAudio (payload : List UInt8) : CacheFrameKind :=
  if isMultitrackContainer .audio payload && multitrackHasSequenceStart .audio payload then
    sequenceHeaderKind (multitrackSequenceConfigsValid .audio payload) .audioSequenceHeader
  else
    match exaudioParse payload with
    | .error _ => .liveOnly
    | .ok hdr =>
      if hdr.isExHeader then
        if hdr.packetType = 0 then
          sequenceHeaderKind
            (sequenceStartConfigValid .audio hdr.fourcc (payload.drop hdr.headerSize))
            .audioSequenceHeader
        else .liveOnly
      else if hdr.audioCodec = .aac ∧ hdr.aacPacketType = 0 ∧ payload.length ≥ 2 then
        sequenceHeaderKind (validateAacConfig (payload.drop 2)) .audioSequenceHeader
      else .liveOnly

def classifyCacheFrame (frameType : FrameType) (payload : List UInt8) : CacheFrameKind :=
  match frameType with
  | .video => classifyVideo payload
  | .audio => classifyAudio payload
  | .script | .metadata => .liveOnly

/-! Delivery hints. -/

def isEnhancedVideoMetadata (payload : List UInt8) : Bool :=
  if isMultitrackContainer .video payload then
    multitrackAny .video payload (fun track => track.packetType == ertmpPacketTypeMetadata)
  else
    match exvideoParse payload with
    | .error _ => false
    | .ok hdr => hdr.isExHeader && hdr.packetType == ertmpPacketTypeMetadata

def isEnhancedAudioPacket (packetType : Nat) (payload : List UInt8) : Bool :=
  if isMultitrackContainer .audio payload then
    multitrackAny .audio payload (fun track => track.packetType == packetType)
  else
    match exaudioParse payload with
    | .error _ => false
    | .ok hdr => hdr.isExHeader && hdr.packetType == packetType

def isEnhancedAudioMetadata : List UInt8 → Bool :=
  isEnhancedAudioPacket ertmpAudioPacketTypeMetadata

def isEnhancedAudioMultichannel : List UInt8 → Bool :=
  isEnhancedAudioPacket ertmpAudioPacketTypeMultichannel

def isEnhancedVideoCommand (payload : List UInt8) : Bool := payload.head?.any isVideoCommandTag

def classifyDelivery (frameType : FrameType) (payload : List UInt8) (routeHasVideo : Bool) :
    DeliveryHint :=
  if frameType = .script ∨ frameType = .metadata then .critical
  else if frameType = .video ∧ isEnhancedVideoMetadata payload then .critical
  else if frameType = .audio ∧ isEnhancedAudioMetadata payload then .critical
  else if frameType = .video ∧ isEnhancedVideoCommand payload then .critical
  else if frameType = .audio ∧ isEnhancedAudioMultichannel payload then .critical
  else
    match classifyCacheFrame frameType payload with
    | .videoSequenceHeader | .audioSequenceHeader => .critical
    | .videoKeyframe => .resyncPoint
    | .liveOnly => if frameType = .audio ∧ ¬ routeHasVideo then .resyncPoint else .droppable

/-! Script data. -/

def readDataEventName : ReadM (List UInt8) := do
  let b ← get
  match b.peek.head? with
  | some t =>
    if t = Amf0Type.string.marker then Amf0.readString 64
    else if t = Amf0Type.longString.marker then Amf0.readLongString 64
    else throw .amf
  | none => throw .amf

def nameBytes (name : String) : List UInt8 := name.toUTF8.data.toList

def readMetadataName : ReadM Bool := do
  let name ← readDataEventName
  if name = nameBytes "@setDataFrame" then do
    let inner ← readDataEventName
    pure (inner = nameBytes "onMetaData")
  else pure (name = nameBytes "onMetaData")

/-- The payload is `onMetaData`, possibly behind `@setDataFrame`. -/
def isOnMetadataPayload (payload : List UInt8) : Bool :=
  if h : payload.length ≤ isizeMax then
    match (Actions.Action.on readMetadataName (Buffer.fromSlice payload h)).1 with
    | .ok found => found
    | .error _ => false
  else false

def multitrackSequenceTrackIds (frameType : FrameType) (payload : List UInt8) : List UInt8 :=
  (((multitrackTracks frameType payload).getD []).filter (fun track => track.packetType == 0)).map
    MediaTrackSlice.trackId

def mediaCodec : Codec where
  classify := classifyCacheFrame
  isMultitrackContainer := isMultitrackContainer
  sequenceTrackIds := multitrackSequenceTrackIds
  isOnMetadata := isOnMetadataPayload
  normalize := normalizeModexPayload
  deliveryHint := classifyDelivery

def mediaConfig : CacheConfig := ⟨mediaCodec, 64 * 1024 * 1024, id, fun _ => .refl _⟩

end LibRtmp
