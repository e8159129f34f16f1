import LibRtmp.Chunk.MediaOut
import LibRtmp.Message.Control

namespace LibRtmp

inductive Outbound where
  | media (compact : Bool) (msg : MediaMessageInfo) (payload : List UInt8)
  | message (msg : ChunkMessage) (payload : List UInt8) (payloadLen : Nat)
  | setChunkSize (timestamp msgStreamId chunkSize : UInt32)

inductive SendStep where
  | queue (item : Outbound)
  | flush (n : Nat)

structure Sender where
  sent : List UInt8 := []
  out : Buffer := Buffer.new
  tracker : MediaHeaderTracker := {}
  chunkSize : Nat := defaultChunkSize

namespace Sender

def bytes (s : Sender) : List UInt8 := s.sent ++ s.out.peek

def setChunkSizeHeader (timestamp msgStreamId : UInt32) : ChunkMessage where
  csid := 2
  timestamp := timestamp
  msgLength := 4
  msgTypeId := ctrlSetChunkSize
  msgStreamId := msgStreamId

/-- Queue a message. A SetChunkSize message still goes out at the old size. -/
def queue (s : Sender) : Outbound → Except ErrorCode Sender
  | .media compact msg payload =>
    match (writeMediaMessage s.tracker compact msg payload s.chunkSize).on s.out with
    | (.ok tracker, out) => .ok { s with out, tracker }
    | (.error e, _) => .error e
  | .message msg payload payloadLen =>
    match (chunkWrite msg payload payloadLen s.chunkSize).on s.out with
    | (.ok _, out) => .ok { s with out }
    | (.error e, _) => .error e
  | .setChunkSize timestamp msgStreamId chunkSize =>
    match (chunkWrite (setChunkSizeHeader timestamp msgStreamId) (writeSetChunkSize chunkSize) 4
        s.chunkSize).on s.out with
    | (.ok _, out) => .ok { s with out, chunkSize := chunkSize.toNat }
    | (.error e, _) => .error e

def step (s : Sender) : SendStep → Except ErrorCode Sender
  | .queue item => s.queue item
  | .flush n => .ok { s with sent := s.sent ++ s.out.peek.take n, out := s.out.drain n }

def run (s : Sender) (steps : List SendStep) : Except ErrorCode Sender := steps.foldlM step s

end Sender

end LibRtmp
