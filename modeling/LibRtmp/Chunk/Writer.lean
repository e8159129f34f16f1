import LibRtmp.Lib.Slices
import LibRtmp.Buffer.Write
import LibRtmp.Chunk.Reader

namespace LibRtmp

def extendedTimestampMarker : UInt32 := 0xFFFFFF
def rtmpMaxCsid : Nat := 65599
def rtmpMinCsid : Nat := 2

def basicHeader (csid fmt : Nat) : List UInt8 :=
  if csid < 64 then [UInt8.ofNat (fmt * 64 + csid)]
  else if csid < 320 then [UInt8.ofNat (fmt * 64), UInt8.ofNat (csid - 64)]
  else
    [UInt8.ofNat (fmt * 64 + 1), UInt8.ofNat ((csid - 64) % 256),
      UInt8.ofNat ((csid - 64) / 256 % 256)]

def firstHeaderLen (csid fmt : Nat) (tsField : UInt32) : Nat :=
  let msgHdr := match fmt with
    | 0 => 11
    | 1 => 7
    | 2 => 3
    | _ => 0
  let ext := if fmt < 3 ∧ tsField ≥ extendedTimestampMarker then 4 else 0
  (basicHeader csid fmt).length + msgHdr + ext

def firstHeader (csid fmt : Nat) (tsField : UInt32) (msgLength : Nat) (msgTypeId : UInt8)
    (msgStreamId : UInt32) : List UInt8 :=
  let extTs := decide (tsField ≥ extendedTimestampMarker)
  basicHeader csid fmt ++
    (Bytes.toBe 3 (if extTs then extendedTimestampMarker else tsField).toNat ++
    ((if fmt ≤ 1 then Bytes.toBe 3 msgLength ++ [msgTypeId] else []) ++
    ((if fmt = 0 then Bytes.toLe 4 msgStreamId.toNat else []) ++
    (if extTs then Bytes.toBe 4 tsField.toNat else []))))

def writeFirstHeader (csid fmt : Nat) (tsField : UInt32) (msgLength : Nat) (msgTypeId : UInt8)
    (msgStreamId : UInt32) : WriteM Unit := do
  if fmt > 2 then throw .internal
  if csid > rtmpMaxCsid then throw .chunk
  if csid < rtmpMinCsid then throw .chunk
  writeAll (firstHeader csid fmt tsField msgLength msgTypeId msgStreamId)

def chunkBodyLen (csid payloadLen chunkSize : Nat) (extTs : Bool) : Nat :=
  let chunkSize := if chunkSize = 0 then 128 else chunkSize
  let contLen := (basicHeader csid 3).length
  let continuationChunks := (payloadLen - 1) / chunkSize
  payloadLen + continuationChunks * (contLen + extTsSize extTs)

def continuationHeader (csid : Nat) (extTs : Option UInt32) : List UInt8 :=
  basicHeader csid 3 ++ match extTs with
    | some ts => Bytes.toBe 4 ts.toNat
    | none => []

def writePieces (chdr : List UInt8) : List (List UInt8) → WriteM Unit
  | [] => pure ()
  | [chunk] => writeAll chunk
  | chunk :: next :: rest => do
    writeAll chunk
    writeAll chdr
    writePieces chdr (next :: rest)

def writeChunkBody (csid : Nat) (payload : List UInt8) (chunkSize : Nat)
    (extTs : Option UInt32) : WriteM Unit := do
  if csid > rtmpMaxCsid then throw .chunk
  if csid < rtmpMinCsid then throw .chunk
  let chunkSize := if chunkSize = 0 then 128 else chunkSize
  reserveRoom (chunkBodyLen csid payload.length chunkSize extTs.isSome)
  writePieces (continuationHeader csid extTs) (Slices.chunks chunkSize payload)

def chunkWrite (msg : ChunkMessage) (payload : List UInt8) (payloadLen chunkSize : Nat) :
    WriteM Unit := do
  let chunkSize := if chunkSize = 0 then 128 else chunkSize
  if msg.csid > rtmpMaxCsid then throw .chunk
  if msg.csid < rtmpMinCsid then throw .chunk
  if msg.fmt ≠ 0 then throw .internal
  if msg.msgLength > rtmpWireMaxMsgLength then throw .internal
  if payloadLen ≠ msg.msgLength then throw .internal
  if payloadLen > payload.length then throw .internal
  let extTs := decide (msg.timestamp ≥ extendedTimestampMarker)
  reserveRoom (firstHeaderLen msg.csid 0 msg.timestamp +
    chunkBodyLen msg.csid payloadLen chunkSize extTs)
  writeFirstHeader msg.csid 0 msg.timestamp msg.msgLength msg.msgTypeId msg.msgStreamId
  writeChunkBody msg.csid (payload.take payloadLen) chunkSize
    (if extTs then some msg.timestamp else none)

end LibRtmp
