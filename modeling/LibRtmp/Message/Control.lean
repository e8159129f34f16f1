import LibRtmp.Chunk.Reader

namespace LibRtmp

def ctrlSetChunkSize : UInt8 := 0x01
def ctrlAbortMessage : UInt8 := 0x02
def minChunkSize : Nat := 128

def ntoh32 (data : List UInt8) : Nat := Bytes.ofBe (data.take 4)

def writeSetChunkSize (chunkSize : UInt32) : List UInt8 := Bytes.toBe 4 chunkSize.toNat

/-- Sizes under 128 and a set top bit are refused; larger sizes than any message are clamped. -/
def readSetChunkSize (data : List UInt8) : Except ErrorCode Nat :=
  if data.length < 4 then .error .protocol
  else if ntoh32 data < minChunkSize ∨ ntoh32 data ≥ 0x80000000 then .error .protocol
  else .ok (min (ntoh32 data) maxPeerChunkSize)

def readAbortMessage (data : List UInt8) : Except ErrorCode Nat :=
  if data.length < 4 then .error .protocol else .ok (ntoh32 data)

def applyControl (reg : ChunkRegistry) (msgTypeId : UInt8) (payload : List UInt8) :
    ChunkRegistry :=
  if msgTypeId = ctrlSetChunkSize then
    match readSetChunkSize payload with
    | .ok cs => reg.setAllChunkSize cs
    | .error _ => reg
  else if msgTypeId = ctrlAbortMessage then
    match readAbortMessage payload with
    | .ok csid => reg.abortStream csid
    | .error _ => reg
  else reg

end LibRtmp
