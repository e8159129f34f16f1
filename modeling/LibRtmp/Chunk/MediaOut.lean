import LibRtmp.Chunk.Writer

namespace LibRtmp

def rtmpMsgAmf0Data : UInt8 := 0x12

def mediaChunkStream : FrameType → Nat × UInt8 × Fin 3
  | .audio => (4, 0x08, 0)
  | .script => (5, rtmpMsgAmf0Data, 1)
  | .metadata => (5, rtmpMsgAmf0Data, 1)
  | .video => (6, 0x09, 2)

structure MediaOutHeader where
  msgStreamId : UInt32
  timestamp : UInt32
  msgLength : Nat
  msgTypeId : UInt8
  deriving DecidableEq

structure MediaFirstHeader where
  csid : Nat
  fmt : Nat
  tsField : UInt32
  slot : Fin 3
  current : MediaOutHeader

namespace MediaFirstHeader

def encodedLen (h : MediaFirstHeader) : Nat := firstHeaderLen h.csid h.fmt h.tsField

def write (h : MediaFirstHeader) : WriteM Unit :=
  writeFirstHeader h.csid h.fmt h.tsField h.current.msgLength h.current.msgTypeId
    h.current.msgStreamId

end MediaFirstHeader

structure MediaHeaderTracker where
  last : Fin 3 → Option MediaOutHeader := fun _ => none

namespace MediaHeaderTracker

/-- The smallest first-chunk header the peer can decode after the last one. -/
def choose (t : MediaHeaderTracker) (compact : Bool) (frameType : FrameType)
    (msgStreamId timestamp : UInt32) (payloadLen : Nat) : Except ErrorCode MediaFirstHeader :=
  if payloadLen > rtmpWireMaxMsgLength then .error .internal
  else
    let (csid, msgTypeId, slot) := mediaChunkStream frameType
    let current : MediaOutHeader := ⟨msgStreamId, timestamp, payloadLen, msgTypeId⟩
    let (fmt, tsField) : Nat × UInt32 := match t.last slot with
      | some prev =>
        if compact ∧ prev.msgStreamId = msgStreamId ∧ prev.timestamp ≤ timestamp ∧
            timestamp < extendedTimestampMarker then
          (if prev.msgLength = current.msgLength ∧ prev.msgLength ≠ 0 ∧
              prev.msgTypeId = msgTypeId then 2 else 1, timestamp - prev.timestamp)
        else (0, timestamp)
      | none => (0, timestamp)
    .ok { csid, fmt, tsField, slot, current }

def commit (t : MediaHeaderTracker) (h : MediaFirstHeader) : MediaHeaderTracker :=
  { last := Function.update t.last h.slot (some h.current) }

end MediaHeaderTracker

def encodeMediaBody (frameType : FrameType) (timestamp : UInt32) (payload : List UInt8)
    (chunkSize : Nat) : WriteM Unit :=
  let (csid, _, _) := mediaChunkStream frameType
  let extTs := if timestamp ≥ extendedTimestampMarker then some timestamp else none
  writeChunkBody csid payload chunkSize extTs

structure MediaMessageInfo where
  frameType : FrameType
  msgStreamId : UInt32
  timestamp : UInt32

def writeMediaMessage (tracker : MediaHeaderTracker) (compact : Bool) (msg : MediaMessageInfo)
    (payload : List UInt8) (chunkSize : Nat) : WriteM MediaHeaderTracker := do
  let header ← tracker.choose compact msg.frameType msg.msgStreamId msg.timestamp payload.length
  let (csid, _, _) := mediaChunkStream msg.frameType
  let ext := decide (msg.timestamp ≥ extendedTimestampMarker)
  reserveRoom (header.encodedLen + chunkBodyLen csid payload.length chunkSize ext)
  header.write
  encodeMediaBody msg.frameType msg.timestamp payload chunkSize
  pure (tracker.commit header)

def writeMediaMessageWithBody (tracker : MediaHeaderTracker) (compact : Bool)
    (msg : MediaMessageInfo) (payloadLen : Nat) (body : List UInt8) :
    WriteM MediaHeaderTracker := do
  let header ← tracker.choose compact msg.frameType msg.msgStreamId msg.timestamp payloadLen
  reserveRoom (header.encodedLen + body.length)
  header.write
  writeAll body
  pure (tracker.commit header)

end LibRtmp
