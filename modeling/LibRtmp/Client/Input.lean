import LibRtmp.Client.Output

namespace LibRtmp

open Actions

def maxMessagesPerPoll : Nat := 256
def maxRecvBytesPerPoll : Nat := 256 * 1024

inductive ServerMessage where
  | windowAckSize (size : UInt32)
  | pingRequest (token : UInt32) (socket : Socket)
  | control
  | other
  | fails (e : ErrorCode)

inductive Received where
  | bytes (n : Nat)
  | overflow
  | ended

/-- What a poll meets: the answers of its socket, the messages staged before, and the reads. -/
structure ClientPoll where
  before : Socket := []
  writable : Except ErrorCode Unit := .ok ()
  retry : Socket := []
  staged : List ServerMessage := []
  readable : Bool := true
  reads : List (Received × List ServerMessage) := []
  after : Socket := []

inductive RecvRound where
  | staged (message : ServerMessage) (send : BlockingSend)
  | bytes (n : Nat) (send : BlockingSend)
  | fails (e : ErrorCode)

namespace Client

def noteBytesReceived (n : Nat) : ClientM Unit :=
  modify (fun c => { c with bytesReceived := satAdd c.bytesReceived n })

def setWindowAckSize (size : UInt32) : ClientM Unit :=
  modify (fun c => { c with windowAckSize := size })

def setTerminalIoError (e : Option ErrorCode) : ClientM Unit :=
  modify (fun c => { c with terminalIoError := e })

def handlePing (terminalDrain : Bool) (token : UInt32) (socket : Socket) : ClientM Unit :=
  if terminalDrain then pure ()
  else
    sendUserControlMessageNonblocking
      (Bytes.toBe 2 uctrlPingResponse ++ Bytes.toBe 4 token.toNat) socket

def handleMessage (terminalDrain : Bool) : ServerMessage → ClientM Unit
  | .windowAckSize size => setWindowAckSize size
  | .pingRequest token socket => handlePing terminalDrain token socket
  | .control | .other => pure ()
  | .fails e => throw e

def drainReadyMessages (terminalDrain : Bool) : List ServerMessage → Nat → ClientM Nat
  | [], processed => pure processed
  | message :: messages, processed =>
    if processed ≥ maxMessagesPerPoll then pure processed
    else do
      handleMessage terminalDrain message
      drainReadyMessages terminalDrain messages (processed + 1)

def recvInbound : List (Received × List ServerMessage) → Nat → Nat → ClientM Unit
  | [], _, _ => pure ()
  | (received, ready) :: reads, drained, processed =>
    if drained ≥ maxRecvBytesPerPoll ∨ processed ≥ maxMessagesPerPoll then pure ()
    else
      match received with
      | .bytes n => do
        noteBytesReceived n
        let processed ← drainReadyMessages false ready processed
        recvInbound reads (drained + n) processed
      | .overflow => throw .protocol
      | .ended => throw .io

/-- `service_inbound` up to its acknowledgement. Returns whether it gets there. -/
def readInbound (staged : List ServerMessage) (readable : Bool)
    (reads : List (Received × List ServerMessage)) : ClientM Bool := do
  let c ← get
  if c.transport.isNone then pure false
  else
    let processed ← drainReadyMessages false staged 0
    if processed = 0 ∧ ¬ readable then pure false
    else
      recvInbound reads 0 processed
      pure true

def serviceInbound (staged : List ServerMessage) (readable : Bool)
    (reads : List (Received × List ServerMessage)) : ClientM Unit := do
  let reached ← readInbound staged readable reads
  if reached then maybeSendWindowAck else pure ()

/-- Handle what is staged after the stream has ended, then fail, in a later poll if need be. -/
def drainThenFail (ready : List ServerMessage) (processed : Nat) : ClientM Unit := do
  let processed ← drainReadyMessages true ready processed
  let c ← get
  if processed ≥ maxMessagesPerPoll then
    setTerminalIoError (some (c.terminalIoError.getD .io))
  else
    setTerminalIoError none
    throw (c.terminalIoError.getD .io)

def recvPlaying : List Received → Nat → ClientM Bool
  | [], _ => pure false
  | received :: reads, drained =>
    if drained ≥ maxRecvBytesPerPoll then pure false
    else
      match received with
      | .bytes n => do
        noteBytesReceived n
        recvPlaying reads (drained + n)
      | .overflow => throw .protocol
      | .ended => pure true

/-- A poll while playing up to its acknowledgement. Returns whether it gets there. -/
def readPlaying (input : ClientPoll) : ClientM Bool := do
  tryFlushSendBuffer input.before
  let c ← get
  if c.transport.isNone then throw .internal
  else if c.terminalIoError.isSome then
    drainThenFail input.staged 0
    pure false
  else
    let processed ← drainReadyMessages false input.staged 0
    let ended ← recvPlaying (input.reads.map Prod.fst) 0
    if ended then
      drainThenFail (input.reads.flatMap Prod.snd) processed
      pure false
    else
      let _ ← drainReadyMessages false (input.reads.flatMap Prod.snd) processed
      pure true

def pollPlaying (input : ClientPoll) : ClientM Unit := do
  let reached ← readPlaying input
  if reached then
    maybeSendWindowAck
    tryFlushSendBuffer input.after
  else pure ()

def retryFlush (input : ClientPoll) : ClientM Unit := do
  let c ← get
  if c.sendBuffer.available > 0 then
    match input.writable with
    | .error e => if c.transport.isSome ∧ e ≠ .timeout then throw e else tryFlushSendBuffer input.retry
    | .ok _ => tryFlushSendBuffer input.retry
  else pure ()

def pollPublishing (input : ClientPoll) : ClientM Unit := do
  tryFlushSendBuffer input.before
  retryFlush input
  serviceInbound input.staged input.readable input.reads
  tryFlushSendBuffer input.after

def poll (input : ClientPoll) : ClientM Unit := do
  let c ← get
  if c.state = .publishing then pollPublishing input
  else if c.state = .playing then pollPlaying input
  else throw .protocol

def consumeProtocolControlMessage : ServerMessage → ClientM Bool
  | .windowAckSize size => do
    setWindowAckSize size
    -- Bytes counted before the window was learned may already have crossed it.
    maybeSendWindowAck
    pure true
  | .pingRequest token socket => do
    handlePing false token socket
    pure true
  | .control => pure true
  | .other => pure false
  | .fails e => throw e

/-- Count bytes that `recv_message` has read, and acknowledge them before it waits for more. -/
def recvBytes (n : Nat) (send : BlockingSend) : ClientM Unit := do
  noteBytesReceived n
  maybeSendWindowAck
  flushPendingOutbound send

def recvMessage : List RecvRound → ClientM Unit
  | [] => throw .timeout
  | .staged message send :: rounds => do
    let consumed ← consumeProtocolControlMessage message
    if consumed then
      flushPendingOutbound send
      recvMessage rounds
    else pure ()
  | .bytes n send :: rounds => do
    recvBytes n send
    recvMessage rounds
  | .fails e :: _ => throw e

def sendFramePayload (frameType : FrameType) (timestamp : UInt32) (payload : List UInt8)
    (input : ClientPoll) : ClientM Unit := do
  let c ← get
  if c.state ≠ .publishing then throw .protocol
  else
    tryFlushSendBuffer input.before
    serviceInbound input.staged input.readable input.reads
    if payload.length > maxClientFrameBytes then throw .protocol
    else
      queueMedia frameType timestamp payload
      tryFlushSendBuffer input.after

end Client

end LibRtmp
