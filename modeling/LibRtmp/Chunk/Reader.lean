import LibRtmp.Lib.Bytes
import LibRtmp.Chunk.State

namespace LibRtmp

structure ChunkMessage where
  csid : Nat := 0
  fmt : Nat := 0
  timestamp : UInt32 := 0
  msgLength : Nat := 0
  msgTypeId : UInt8 := 0
  msgStreamId : UInt32 := 0
  isComplete : Bool := false
  deriving DecidableEq

structure MessageFields where
  timestamp : Nat := 0
  msgLength : Nat := 0
  msgTypeId : UInt8 := 0
  msgStreamId : UInt32 := 0

structure ChunkHead where
  fmt : Nat
  csid : Nat
  headerSize : Nat
  msgFieldSize : Nat
  extTs : Bool
  toRead : Nat

inductive Peeked where
  | more
  | fail (e : ErrorCode)
  | ready (h : ChunkHead)

def readBasicHeader (peek : List UInt8) : Option (Nat × Nat × Nat) :=
  match peek with
  | [] => none
  | first :: rest =>
    let fmt := first.toNat / 64
    match first.toNat % 64 with
    | 0 =>
      match rest with
      | b :: _ => some (fmt, b.toNat + 64, 2)
      | [] => none
    | 1 =>
      match rest with
      | b :: c :: _ => some (fmt, Bytes.ofLe [b, c] + 64, 3)
      | _ => none
    | n => some (fmt, n, 1)

def msgFieldSize : Nat → Option Nat
  | 0 => some 11
  | 1 => some 7
  | 2 => some 3
  | 3 => some 0
  | _ => none

def field24 (bytes : List UInt8) (off : Nat) : Nat := Bytes.ofBe ((bytes.drop off).take 3)

/-- The reassembly cap: bytes a fmt 0/1 chunk is about to replace do not count. -/
def overReassemblyCap (reg : ChunkRegistry) (fmt csid toRead : Nat) : Bool :=
  let replaced := if fmt ≤ 1 then
    ((reg.get csid).map (fun s => s.reassemblyBuf.available)).getD 0 else 0
  decide (0 < toRead) &&
    decide (reg.reassemblyBytesInUse - replaced + toRead > reg.maxReassemblyBytes.toNat)

def peekTimestamp (peek : List UInt8) (fmt headerSize : Nat) : Nat :=
  if fmt ≤ 2 then field24 peek headerSize else 0

def peekLength (peek : List UInt8) (fmt headerSize : Nat) : Nat :=
  if fmt ≤ 1 then field24 peek (headerSize + 3) else 0

def extTsSize : Bool → Nat
  | true => 4
  | false => 0

/-- Whether an extended timestamp follows; a fmt 3 chunk goes by the header it continues. -/
def extTsForAvail (reg : ChunkRegistry) (fmt csid tsRaw : Nat) : Bool :=
  decide (tsRaw ≥ 0xFFFFFF) || (decide (fmt = 3) && (reg.get csid).any (fun s => s.type0ExtTs))

def effLenForAvail (reg : ChunkRegistry) (fmt csid lenRaw : Nat) : Nat :=
  if fmt ≤ 1 then lenRaw else ((reg.get csid).map (fun s => s.type0MsgLength)).getD 0

def chunkSzForAvail (reg : ChunkRegistry) (csid : Nat) : Nat :=
  ((reg.get csid).map (fun s => s.chunkSize)).getD reg.defaultSize

def reassemblyReadForAvail (reg : ChunkRegistry) (fmt csid : Nat) : Nat :=
  if fmt ≤ 1 then 0 else ((reg.get csid).map (fun s => s.reassemblyBytesRead)).getD 0

def checkChunk (reg : ChunkRegistry) (fmt csid headerSize fieldSize tsRaw lenRaw available : Nat) :
    Peeked :=
  let known := reg.get csid
  if fmt ≥ 2 ∧ known.isNone then .fail .chunk
  else if fmt = 2 ∧ known.any (fun s => s.reassemblyBytesRead != 0) then .fail .chunk
  else
  let extTs := extTsForAvail reg fmt csid tsRaw
  let totalHeader := headerSize + fieldSize + extTsSize extTs
  if available < totalHeader then .more
  else
  let effLength := effLenForAvail reg fmt csid lenRaw
  if effLength > reg.maxMsgLength.toNat then .fail .chunk
  else
  let toRead := min (effLength - reassemblyReadForAvail reg fmt csid) (chunkSzForAvail reg csid)
  if overReassemblyCap reg fmt csid toRead then .fail .chunk
  else if (fmt = 2 ∨ fmt = 3) ∧ known.any (fun s => !s.hasMessageHeader) then .fail .chunk
  else if !reg.canGetOrCreate csid then .fail .chunk
  else if available < totalHeader + toRead then .more
  else .ready { fmt, csid, headerSize, msgFieldSize := fieldSize, extTs, toRead }

/-- Phase 1 of `chunk_read`: every check comes before any byte is consumed. -/
def peekChunk (peek : List UInt8) (reg : ChunkRegistry) : Peeked :=
  match readBasicHeader peek with
  | none => .more
  | some (fmt, csid, headerSize) =>
  match msgFieldSize fmt with
  | none => .fail .chunk
  | some fieldSize =>
  if peek.length < headerSize + fieldSize then .more
  else checkChunk reg fmt csid headerSize fieldSize (peekTimestamp peek fmt headerSize)
    (peekLength peek fmt headerSize) peek.length

def messageFields (fmt : Nat) (mh : List UInt8) : MessageFields :=
  match fmt with
  | 0 =>
    { timestamp := field24 mh 0, msgLength := field24 mh 3, msgTypeId := mh.getD 6 0
      msgStreamId := UInt32.ofNat (Bytes.ofLe ((mh.drop 7).take 4)) }
  | 1 => { timestamp := field24 mh 0, msgLength := field24 mh 3, msgTypeId := mh.getD 6 0 }
  | 2 => { timestamp := field24 mh 0 }
  | _ => {}

/-- A new header: fmt 0 is absolute, fmt 1 and 2 carry a delta, fmt 3 repeats the last one. -/
def stampHeader (s : ChunkStream) (fmt : Nat) (f : MessageFields) (finalTimestamp : UInt32)
    (extTs : Bool) : ChunkStream :=
  match fmt with
  | 0 =>
    { s with
      hasMessageHeader := true
      type0Timestamp := finalTimestamp
      type0MsgLength := f.msgLength
      type0MsgTypeId := f.msgTypeId
      type0MsgStreamId := f.msgStreamId
      type0ExtTs := extTs
      lastDelta := finalTimestamp }
  | 1 =>
    { s with
      hasMessageHeader := true
      type0Timestamp := s.type0Timestamp + finalTimestamp
      type0MsgLength := f.msgLength
      type0MsgTypeId := f.msgTypeId
      type0ExtTs := extTs
      lastDelta := finalTimestamp }
  | 2 =>
    { s with
      type0Timestamp := s.type0Timestamp + finalTimestamp
      type0ExtTs := extTs
      lastDelta := finalTimestamp }
  | _ =>
    if s.reassemblyBytesRead = 0 then { s with type0Timestamp := s.type0Timestamp + s.lastDelta }
    else s

structure ReadState where
  buf : Buffer
  reg : ChunkRegistry
  msg : ChunkMessage := {}
  payload : List UInt8 := []

def finishChunk (st : ReadState) (idx : Nat) (h : ChunkHead) : ReadState × Except ErrorCode Nat :=
  let s := st.reg.stream idx
  let complete := decide (s.reassemblyBytesRead ≥ s.type0MsgLength)
  let reg := (st.reg.modifyStream idx (fun s => { s with chunkReadScratch := [] }))
    |>.setStreamReassembling idx (!complete)
  if complete then
    let msg : ChunkMessage :=
      { csid := h.csid, fmt := h.fmt, timestamp := s.type0Timestamp, msgLength := s.type0MsgLength
        msgTypeId := s.type0MsgTypeId, msgStreamId := s.type0MsgStreamId, isComplete := true }
    let payload := s.reassemblyBuf.take.2
    let reg := reg.modifyStream idx (fun s => { s with
      reassemblyBuf := s.reassemblyBuf.take.1
      lastPayload := payload
      reassemblyBytesRead := 0 })
    ({ st with
        reg := reg.releaseReassemblyBytes s.reassemblyBuf.available
        msg := msg, payload := payload }, .ok 1)
  else ({ st with reg := reg, msg := { st.msg with isComplete := false } }, .ok 0)

def storeChunk (st : ReadState) (idx : Nat) (h : ChunkHead) : ReadState × Except ErrorCode Nat :=
  let s := st.reg.stream idx
  let toRead := min (s.type0MsgLength - s.reassemblyBytesRead) s.chunkSize
  let (buf, data) := st.buf.read toRead
  match data with
  | .error _ =>
    let reg := st.reg.modifyStream idx (fun s => { s with
      chunkReadScratch := resizeVec s.chunkReadScratch toRead })
    ({ st with buf := buf, reg := reg }, .error .io)
  | .ok data =>
    let reg := st.reg.modifyStream idx (fun s => { s with
      chunkReadScratch := data
      reassemblyBuf := (s.reassemblyBuf.write data).1 })
    match (s.reassemblyBuf.write data).2 with
    | .error _ => ({ st with buf := buf, reg := reg }, .error .chunk)
    | .ok _ =>
      let reg := (reg.modifyStream idx (fun s => { s with
        reassemblyBytesRead := s.reassemblyBytesRead + toRead })).noteReassemblyGrowth toRead
      finishChunk { st with buf := buf, reg := reg } idx h

def discardPartial (reg : ChunkRegistry) (idx fmt : Nat) : ChunkRegistry :=
  if fmt = 0 ∨ fmt = 1 then
    (reg.releaseStreamReassembly idx).modifyStream idx (fun s => { s with
      reassemblyBytesRead := 0
      reassemblyBuf := s.reassemblyBuf.reset })
  else reg

def acceptChunk (st : ReadState) (h : ChunkHead) (f : MessageFields) (finalTimestamp : UInt32) :
    ReadState × Except ErrorCode Nat :=
  if overReassemblyCap st.reg h.fmt h.csid h.toRead then (st, .error .chunk)
  else
  let (reg, slot) := st.reg.getOrCreateIndex h.csid
  match slot with
  | .error e => ({ st with reg := reg }, .error e)
  | .ok idx =>
    let reg := discardPartial reg idx h.fmt
    let s := reg.stream idx
    if (h.fmt = 2 ∨ h.fmt = 3) ∧ s.reassemblyBytesRead = 0 ∧ s.hasMessageHeader = false
    then ({ st with reg := reg }, .error .chunk)
    else
      let reg := reg.modifyStream idx (fun s => stampHeader s h.fmt f finalTimestamp h.extTs)
      storeChunk { st with reg := reg } idx h

/-- Read one chunk: `1` when a message is ready, `0` when more data is needed. -/
def chunkRead (buf : Buffer) (reg : ChunkRegistry) (msg : ChunkMessage) :
    ReadState × Except ErrorCode Nat :=
  match peekChunk buf.peek reg with
  | .more => (⟨buf, reg, msg, []⟩, .ok 0)
  | .fail e => (⟨buf, reg, msg, []⟩, .error e)
  | .ready h =>
    let (buf, mh) := (buf.drain h.headerSize).read h.msgFieldSize
    match mh with
    | .error _ => (⟨buf, reg, msg, []⟩, .error .io)
    | .ok mh =>
      let f := messageFields h.fmt mh
      if h.extTs then
        let (buf, ext) := buf.read 4
        match ext with
        | .error _ => (⟨buf, reg, msg, []⟩, .error .io)
        | .ok ext => acceptChunk ⟨buf, reg, msg, []⟩ h f (UInt32.ofNat (Bytes.ofBe ext))
      else acceptChunk ⟨buf, reg, msg, []⟩ h f (UInt32.ofNat f.timestamp)

def chunkReadOwned (buf : Buffer) (reg : ChunkRegistry) (msg : ChunkMessage) :
    ReadState × Except ErrorCode (Nat × List UInt8) :=
  let (st, rc) := chunkRead buf reg msg
  match rc with
  | .error e => (st, .error e)
  | .ok rc =>
    if rc = 1 ∧ st.msg.isComplete then
      match st.reg.slot? st.msg.csid with
      | some idx =>
        ({ st with reg := st.reg.modifyStream idx (fun s => { s with lastPayload := [] }) },
          .ok (rc, (st.reg.stream idx).lastPayload))
      | none => (st, .ok (rc, []))
    else (st, .ok (rc, []))

end LibRtmp
