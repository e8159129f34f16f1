import LibRtmp.Session.Timers

namespace LibRtmp

open Actions

inductive ClientState where
  | disconnected | handshaking | connected | appConnected | streamCreated | publishing | playing
  deriving DecidableEq, Repr

/-- A client, without the bytes it has received and the parsing of them. -/
structure Client where
  transport : Option Transport := none
  state : ClientState := .disconnected
  sendBuffer : Buffer := .new
  streamId : UInt32 := 0
  windowAckSize : UInt32 := 0
  bytesReceived : Nat := 0
  bytesAtLastAck : Nat := 0
  ackBytesRemaining : Option Nat := none
  publishChunkSize : UInt32 := 4096
  compactMediaHeaders : Bool := true
  outChunkSize : Nat := defaultChunkSize
  mediaOutHeaders : MediaHeaderTracker := {}
  terminalIoError : Option ErrorCode := none

def maxClientFrameBytes : Nat := defaultMaxMsgLength.toNat
def maxOutboundChunkSize : Nat := 65536

def rtmpMsgSetChunkSize : UInt8 := 0x01
def rtmpMsgAcknowledgement : UInt8 := 0x03

inductive BlockingSend where
  | bounded (socket : Socket)
  | whole (result : Except ErrorCode Unit)

abbrev ClientM := Action ErrorCode Client

namespace Client

/-- Retire the queued acknowledgement once its own bytes have been written out. -/
def noteOutboundDrained (ackBytesRemaining : Option Nat) (n : Nat) : Option Nat :=
  ackBytesRemaining.bind (fun remaining =>
    if remaining - n = 0 then none else some (remaining - n))

/-- Send all queued bytes before the deadline; what was sent is gone even when this fails. -/
def sendBounded : Socket → Buffer → Option Nat → Except ErrorCode Unit × Buffer × Option Nat
  | [], out, ack => (if out.available = 0 then .ok () else .error .timeout, out, ack)
  | .error e :: _, out, ack => (if out.available = 0 then .ok () else .error e, out, ack)
  | .ok n :: socket, out, ack =>
    if out.available = 0 then (.ok (), out, ack)
    else
      let sent := min n out.available
      if sent = 0 then sendBounded socket out ack
      else sendBounded socket (out.drain sent) (noteOutboundDrained ack sent)

def drainQueued : Socket → Buffer → Option Nat → Except ErrorCode Unit × Buffer × Option Nat
  | [], out, ack => (.ok (), out, ack)
  | .error e :: _, out, ack => (if out.available = 0 then .ok () else .error e, out, ack)
  | .ok n :: socket, out, ack =>
    let sent := min n out.available
    if sent = 0 then (.ok (), out, ack)
    else drainQueued socket (out.drain sent) (noteOutboundDrained ack sent)

def tryFlushSendBuffer (socket : Socket) : ClientM Unit := ExceptT.mk (fun c =>
  match drainQueued (if c.transport.isSome then socket else []) c.sendBuffer
      c.ackBytesRemaining with
  | (.error e, out, ack) => (.error e, { c with sendBuffer := out, ackBytesRemaining := ack })
  | (.ok _, out, ack) =>
    (.ok (), if out.available > 0 then { c with sendBuffer := out, ackBytesRemaining := ack }
      else { c with sendBuffer := out.reset, ackBytesRemaining := none }))

/-- Give the whole buffer to the transport; a failed send without a deadline leaves it as it was. -/
def transmit (c : Client) (send : BlockingSend) : Except ErrorCode Unit × Buffer × Option Nat :=
  if c.transport.isNone then (.ok (), c.sendBuffer, c.ackBytesRemaining)
  else
    match send with
    | .bounded socket => sendBounded socket c.sendBuffer c.ackBytesRemaining
    | .whole result => (result, c.sendBuffer, c.ackBytesRemaining)

def sendQueued (send : BlockingSend) : ClientM Unit := ExceptT.mk (fun c =>
  match c.transmit send with
  | (.error e, out, ack) => (.error e, { c with sendBuffer := out, ackBytesRemaining := ack })
  | (.ok _, out, _) => (.ok (), { c with sendBuffer := out.reset, ackBytesRemaining := none }))

def flushPendingOutbound (send : BlockingSend) : ClientM Unit := do
  let c ← get
  if c.sendBuffer.available = 0 then pure () else sendQueued send

def queueMessage (msg : ChunkMessage) (payload : List UInt8) : ClientM Unit :=
  ExceptT.mk (fun c =>
    let (result, out) :=
      (chunkWrite msg payload payload.length c.outChunkSize).on c.sendBuffer
    (result, { c with sendBuffer := out }))

def queueControlMessage (ty : UInt8) (payload : List UInt8) : ClientM Unit :=
  queueMessage { csid := 2, msgLength := payload.length, msgTypeId := ty } payload

def queuePublishChunkSize : ClientM Unit := do
  let c ← get
  let chunkSize := max defaultChunkSize (min c.publishChunkSize.toNat maxOutboundChunkSize)
  if chunkSize = c.outChunkSize then pure ()
  else
    queueControlMessage rtmpMsgSetChunkSize (Bytes.toBe 4 chunkSize)
    modify (fun c => { c with outChunkSize := chunkSize })

def AckDue (c : Client) : Prop :=
  0 < c.windowAckSize ∧ c.windowAckSize.toNat ≤ c.bytesReceived - c.bytesAtLastAck

instance (c : Client) : Decidable c.AckDue := inferInstanceAs (Decidable (_ ∧ _))

def sendWindowAck (bytesReceived : Nat) : ClientM Unit := do
  queueControlMessage rtmpMsgAcknowledgement (Bytes.toBe 4 (bytesReceived % 2 ^ 32))
  modify (fun c => { c with
    bytesAtLastAck := bytesReceived
    ackBytesRemaining := some c.sendBuffer.available })

def maybeSendWindowAck : ClientM Unit := do
  let c ← get
  if c.ackBytesRemaining.isSome then pure ()
  else if c.AckDue then sendWindowAck c.bytesReceived
  else pure ()

def sendCommandMsg (msgStreamId : UInt32) (amf : List UInt8) (send : BlockingSend) :
    ClientM Unit := do
  queueMessage { csid := 3, msgLength := amf.length, msgTypeId := 0x14, msgStreamId } amf
  sendQueued send

def sendUserControlMessage (payload : List UInt8) (send : BlockingSend) : ClientM Unit := do
  queueControlMessage rtmpMsgUserControl payload
  sendQueued send

def sendUserControlMessageNonblocking (payload : List UInt8) (socket : Socket) : ClientM Unit := do
  queueControlMessage rtmpMsgUserControl payload
  tryFlushSendBuffer socket

def queueMedia (frameType : FrameType) (timestamp : UInt32) (payload : List UInt8) : ClientM Unit :=
  ExceptT.mk (fun c =>
    match (writeMediaMessage c.mediaOutHeaders c.compactMediaHeaders
        ⟨frameType, c.streamId, timestamp⟩ payload c.outChunkSize).on c.sendBuffer with
    | (.error e, out) => (.error e, { c with sendBuffer := out })
    | (.ok tracker, out) => (.ok (), { c with sendBuffer := out, mediaOutHeaders := tracker }))

def resetSessionState (c : Client) : Client :=
  { c with
    transport := none
    state := .disconnected
    sendBuffer := c.sendBuffer.reset
    streamId := 0
    windowAckSize := 0
    bytesReceived := 0
    bytesAtLastAck := 0
    ackBytesRemaining := none
    outChunkSize := defaultChunkSize
    mediaOutHeaders := {}
    terminalIoError := none }

end Client

end LibRtmp
