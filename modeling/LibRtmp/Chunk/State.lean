import LibRtmp.Buffer.Basic

namespace LibRtmp

def defaultChunkSize : Nat := 128
def maxChunkStreams : Nat := 4096
def maxReassemblyBytesPerConn : UInt64 := 32 * 1024 * 1024
def defaultMaxMsgLength : UInt32 := 4 * 1024 * 1024
def rtmpWireMaxMsgLength : Nat := 0xFFFFFF
def defaultMaxActiveCsids : UInt64 := 256
def maxPeerChunkSize : Nat := 0xFFFFFF

structure ChunkStream where
  csid : Nat := 0
  chunkSize : Nat := defaultChunkSize
  hasMessageHeader : Bool := false
  type0Timestamp : UInt32 := 0
  type0MsgLength : Nat := 0
  type0MsgTypeId : UInt8 := 0
  type0MsgStreamId : UInt32 := 0
  type0ExtTs : Bool := false
  lastDelta : UInt32 := 0
  reassemblyBytesRead : Nat := 0
  reassemblyBuf : Buffer := Buffer.withCapacity 0 (Nat.zero_le _)
  chunkReadScratch : List UInt8 := []
  lastPayload : List UInt8 := []
  reassembling : Bool := false
  inUse : Bool := false

def ChunkStream.reset (s : ChunkStream) (defaultSize : Nat) : ChunkStream :=
  { s with
    hasMessageHeader := false
    type0Timestamp := 0
    type0MsgLength := 0
    type0MsgTypeId := 0
    type0MsgStreamId := 0
    type0ExtTs := false
    lastDelta := 0
    reassemblyBytesRead := 0
    reassemblyBuf := s.reassemblyBuf.take.1
    chunkReadScratch := []
    lastPayload := []
    reassembling := false
    chunkSize := defaultSize }

/-- The index is private and the table only grows, so an indexed slot always exists. -/
@[ext]
structure ChunkRegistry where
  streams : List ChunkStream
  csidIndex : Nat → Option Nat
  reassemblyBytesInUse : Nat
  reassemblingCount : Nat
  defaultSize : Nat
  maxMsgLength : UInt32
  maxActiveCsids : UInt64
  maxReassemblyBytes : UInt64
  indexed : ∀ csid idx, csidIndex csid = some idx → idx < streams.length

namespace ChunkRegistry

def new : ChunkRegistry where
  streams := []
  csidIndex := fun _ => none
  reassemblyBytesInUse := 0
  reassemblingCount := 0
  defaultSize := defaultChunkSize
  maxMsgLength := defaultMaxMsgLength
  maxActiveCsids := defaultMaxActiveCsids
  maxReassemblyBytes := maxReassemblyBytesPerConn
  indexed := by simp

def withLimits (reg : ChunkRegistry) (msgLength : UInt32) (activeCsids reassembly : UInt64) :
    ChunkRegistry :=
  { reg with
    maxMsgLength := msgLength, maxActiveCsids := activeCsids, maxReassemblyBytes := reassembly }

def stream (reg : ChunkRegistry) (idx : Nat) : ChunkStream := reg.streams.getD idx {}

def modifyStream (reg : ChunkRegistry) (idx : Nat) (f : ChunkStream → ChunkStream) :
    ChunkRegistry :=
  { reg with
    streams := reg.streams.modify idx f
    indexed := by simpa using reg.indexed }

def pushStream (reg : ChunkRegistry) (csid : Nat) (s : ChunkStream) : ChunkRegistry :=
  { reg with
    streams := reg.streams ++ [s]
    csidIndex := fun c => if c = csid then some reg.streams.length else reg.csidIndex c
    indexed := by
      intro c idx hc
      simp only [List.length_append, List.length_singleton]
      split at hc
      · cases hc
        omega
      · exact Nat.lt_succ_of_lt (reg.indexed c idx hc) }

def activeReassembling (reg : ChunkRegistry) : Nat := reg.reassemblingCount

/-- The slot of `csid` when the index leads to a stream in use that carries this csid. -/
def slot? (reg : ChunkRegistry) (csid : Nat) : Option Nat :=
  match reg.csidIndex csid with
  | none => none
  | some idx =>
    if (reg.stream idx).inUse && (reg.stream idx).csid == csid then some idx else none

def get (reg : ChunkRegistry) (csid : Nat) : Option ChunkStream :=
  (reg.slot? csid).map reg.stream

def getOrCreateIndex (reg : ChunkRegistry) (csid : Nat) : ChunkRegistry × Except ErrorCode Nat :=
  match reg.slot? csid with
  | some idx =>
    if !(reg.stream idx).reassembling && reg.activeReassembling ≥ reg.maxActiveCsids.toNat
    then (reg, .error .chunk)
    else (reg, .ok idx)
  | none =>
    if reg.activeReassembling ≥ reg.maxActiveCsids.toNat then (reg, .error .chunk)
    else if reg.streams.length ≥ maxChunkStreams then (reg, .error .chunk)
    else
      (reg.pushStream csid { csid := csid, inUse := true, chunkSize := reg.defaultSize },
        .ok reg.streams.length)

def canGetOrCreate (reg : ChunkRegistry) (csid : Nat) : Bool :=
  match reg.slot? csid with
  | some idx =>
    (reg.stream idx).reassembling || decide (reg.activeReassembling < reg.maxActiveCsids.toNat)
  | none =>
    if reg.activeReassembling ≥ reg.maxActiveCsids.toNat then false
    else decide (reg.streams.length < maxChunkStreams)

def releaseReassemblyBytes (reg : ChunkRegistry) (released : Nat) : ChunkRegistry :=
  { reg with reassemblyBytesInUse := reg.reassemblyBytesInUse - released }

def releaseStreamReassembly (reg : ChunkRegistry) (idx : Nat) : ChunkRegistry :=
  reg.releaseReassemblyBytes (reg.stream idx).reassemblyBuf.available

def noteReassemblyGrowth (reg : ChunkRegistry) (nbytes : Nat) : ChunkRegistry :=
  { reg with reassemblyBytesInUse := satAdd reg.reassemblyBytesInUse nbytes }

def setStreamReassembling (reg : ChunkRegistry) (idx : Nat) (reassembling : Bool) :
    ChunkRegistry :=
  if (reg.stream idx).reassembling = reassembling then reg
  else
    { reg.modifyStream idx (fun s => { s with reassembling := reassembling }) with
      reassemblingCount :=
        if reassembling then reg.reassemblingCount + 1 else reg.reassemblingCount - 1 }

def setAllChunkSize (reg : ChunkRegistry) (chunkSize : Nat) : ChunkRegistry :=
  if chunkSize < defaultChunkSize ∨ chunkSize > maxPeerChunkSize then reg
  else
    { reg with
      defaultSize := chunkSize
      streams := reg.streams.map (fun s => if s.inUse then { s with chunkSize := chunkSize } else s)
      indexed := by simpa using reg.indexed }

def resetStream (reg : ChunkRegistry) (csid : Nat) : ChunkRegistry :=
  match reg.slot? csid with
  | none => reg
  | some idx =>
    ((reg.releaseStreamReassembly idx).setStreamReassembling idx false).modifyStream idx
      (fun s => s.reset reg.defaultSize)

def abortStream (reg : ChunkRegistry) (csid : Nat) : ChunkRegistry :=
  match reg.slot? csid with
  | none => reg
  | some idx =>
    ((reg.releaseStreamReassembly idx).setStreamReassembling idx false).modifyStream idx
      (fun s => { s with
        reassemblyBuf := s.reassemblyBuf.take.1
        reassemblyBytesRead := 0
        chunkReadScratch := [] })

end ChunkRegistry

end LibRtmp
