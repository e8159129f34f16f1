import LibRtmp.Lib.Outbox
import LibRtmp.Lib.Runs
import LibRtmp.Client.Input
import LibRtmp.Proofs.Writing

namespace LibRtmp.Proofs

open Actions WriteM Client

variable (input : ClientPoll) (c : Client) (send : BlockingSend) (socket : Socket) (out : Buffer)
    (terminalDrain : Bool) (m : ServerMessage)

def ackMessage (count chunkSize : Nat) : List UInt8 :=
  controlBytes rtmpMsgAcknowledgement (Bytes.toBe 4 (count % 2 ^ 32)) chunkSize

/-- A client with its output so far, the bytes of each acknowledgement under its number. -/
structure Watched where
  client : Client
  out : Outbox UInt8 := {}
  acks : Nat := 0
  received : Nat := 0

abbrev WatchedM := Action ErrorCode Watched

def adding (m : ClientM Unit) : WatchedM Unit := ExceptT.mk (fun f =>
  let c := (m.on f.client).2
  ((m.on f.client).1, { f with
    client := c
    out := f.out.push none (c.sendBuffer.peek.drop f.client.sendBuffer.peek.length) }))

def leaving (m : ClientM Unit) : WatchedM Unit := ExceptT.mk (fun f =>
  let c := (m.on f.client).2
  ((m.on f.client).1, { f with
    client := c
    out := f.out.release (f.client.sendBuffer.peek.length - c.sendBuffer.peek.length) }))

def acking (m : ClientM Unit) : WatchedM Unit := ExceptT.mk (fun f =>
  let c := (m.on f.client).2
  ((m.on f.client).1, { f with
    client := c
    out := f.out.push (some (f.acks + 1))
      (c.sendBuffer.peek.drop f.client.sendBuffer.peek.length)
    acks := if f.client.ackBytesRemaining.isNone ∧ c.ackBytesRemaining.isSome then f.acks + 1
      else f.acks }))

namespace Watched

def count (n : Nat) : WatchedM Unit := do
  adding (noteBytesReceived n)
  modify (fun f => { f with received := f.received + n })

def userControlNonblocking (payload : List UInt8) (socket : Socket) : WatchedM Unit := do
  adding (queueControlMessage rtmpMsgUserControl payload)
  leaving (tryFlushSendBuffer socket)

def ping (terminalDrain : Bool) (token : UInt32) (socket : Socket) : WatchedM Unit :=
  if terminalDrain then pure ()
  else
    userControlNonblocking (Bytes.toBe 2 uctrlPingResponse ++ Bytes.toBe 4 token.toNat) socket

def message (terminalDrain : Bool) : ServerMessage → WatchedM Unit
  | .windowAckSize size => adding (setWindowAckSize size)
  | .pingRequest token socket => ping terminalDrain token socket
  | .control | .other => pure ()
  | .fails e => throw e

def drainReady (terminalDrain : Bool) : List ServerMessage → Nat → WatchedM Nat
  | [], processed => pure processed
  | m :: messages, processed =>
    if processed ≥ maxMessagesPerPoll then pure processed
    else do
      message terminalDrain m
      drainReady terminalDrain messages (processed + 1)

def recvInbound : List (Received × List ServerMessage) → Nat → Nat → WatchedM Unit
  | [], _, _ => pure ()
  | (received, ready) :: reads, drained, processed =>
    if drained ≥ maxRecvBytesPerPoll ∨ processed ≥ maxMessagesPerPoll then pure ()
    else
      match received with
      | .bytes n => do
        count n
        let processed ← drainReady false ready processed
        recvInbound reads (drained + n) processed
      | .overflow => throw .protocol
      | .ended => throw .io

def readInbound (staged : List ServerMessage) (readable : Bool)
    (reads : List (Received × List ServerMessage)) : WatchedM Bool := do
  let f ← get
  if f.client.transport.isNone then pure false
  else
    let processed ← drainReady false staged 0
    if processed = 0 ∧ ¬ readable then pure false
    else
      recvInbound reads 0 processed
      pure true

def service (staged : List ServerMessage) (readable : Bool)
    (reads : List (Received × List ServerMessage)) : WatchedM Unit := do
  let reached ← readInbound staged readable reads
  if reached then acking maybeSendWindowAck else pure ()

def drainThenFail (ready : List ServerMessage) (processed : Nat) : WatchedM Unit := do
  let processed ← drainReady true ready processed
  let f ← get
  if processed ≥ maxMessagesPerPoll then
    adding (setTerminalIoError (some (f.client.terminalIoError.getD .io)))
  else
    adding (setTerminalIoError none)
    throw (f.client.terminalIoError.getD .io)

def recvPlaying : List Received → Nat → WatchedM Bool
  | [], _ => pure false
  | received :: reads, drained =>
    if drained ≥ maxRecvBytesPerPoll then pure false
    else
      match received with
      | .bytes n => do
        count n
        recvPlaying reads (drained + n)
      | .overflow => throw .protocol
      | .ended => pure true

def readPlaying (input : ClientPoll) : WatchedM Bool := do
  leaving (tryFlushSendBuffer input.before)
  let f ← get
  if f.client.transport.isNone then throw .internal
  else if f.client.terminalIoError.isSome then
    drainThenFail input.staged 0
    pure false
  else
    let processed ← drainReady false input.staged 0
    let ended ← recvPlaying (input.reads.map Prod.fst) 0
    if ended then
      drainThenFail (input.reads.flatMap Prod.snd) processed
      pure false
    else
      let _ ← drainReady false (input.reads.flatMap Prod.snd) processed
      pure true

def retryFlush (input : ClientPoll) : WatchedM Unit := do
  let f ← get
  if f.client.sendBuffer.available > 0 then
    match input.writable with
    | .error e =>
      if f.client.transport.isSome ∧ e ≠ .timeout then throw e
      else leaving (tryFlushSendBuffer input.retry)
    | .ok _ => leaving (tryFlushSendBuffer input.retry)
  else pure ()

def poll (input : ClientPoll) : WatchedM Unit := do
  let f ← get
  if f.client.state = .publishing then
    leaving (tryFlushSendBuffer input.before)
    retryFlush input
    service input.staged input.readable input.reads
    leaving (tryFlushSendBuffer input.after)
  else if f.client.state = .playing then
    let reached ← readPlaying input
    if reached then
      acking maybeSendWindowAck
      leaving (tryFlushSendBuffer input.after)
    else pure ()
  else throw .protocol

def consume : ServerMessage → WatchedM Bool
  | .windowAckSize size => do
    adding (setWindowAckSize size)
    acking maybeSendWindowAck
    pure true
  | .pingRequest token socket => do
    ping false token socket
    pure true
  | .control => pure true
  | .other => pure false
  | .fails e => throw e

def recvBytes (n : Nat) (send : BlockingSend) : WatchedM Unit := do
  count n
  acking maybeSendWindowAck
  leaving (flushPendingOutbound send)

def recvMessage : List RecvRound → WatchedM Unit
  | [] => throw .timeout
  | .staged m send :: rounds => do
    let consumed ← consume m
    if consumed then
      leaving (flushPendingOutbound send)
      recvMessage rounds
    else pure ()
  | .bytes n send :: rounds => do
    recvBytes n send
    recvMessage rounds
  | .fails e :: _ => throw e

def command (msgStreamId : UInt32) (amf : List UInt8) (send : BlockingSend) : WatchedM Unit := do
  adding (queueMessage { csid := 3, msgLength := amf.length, msgTypeId := 0x14, msgStreamId } amf)
  leaving (sendQueued send)

def userControl (payload : List UInt8) (send : BlockingSend) : WatchedM Unit := do
  adding (queueControlMessage rtmpMsgUserControl payload)
  leaving (sendQueued send)

def frame (frameType : FrameType) (timestamp : UInt32) (payload : List UInt8)
    (input : ClientPoll) : WatchedM Unit := do
  let f ← get
  if f.client.state ≠ .publishing then throw .protocol
  else
    leaving (tryFlushSendBuffer input.before)
    service input.staged input.readable input.reads
    if payload.length > maxClientFrameBytes then throw .protocol
    else
      adding (queueMedia frameType timestamp payload)
      leaving (tryFlushSendBuffer input.after)

end Watched

inductive ClientOp where
  | poll (input : ClientPoll)
  | recvMessage (rounds : List RecvRound)
  | tryFlush (socket : Socket)
  | flushPending (send : BlockingSend)
  | command (msgStreamId : UInt32) (amf : List UInt8) (send : BlockingSend)
  | userControl (payload : List UInt8) (send : BlockingSend)
  | userControlNonblocking (payload : List UInt8) (socket : Socket)
  | publishChunkSize
  | frame (frameType : FrameType) (timestamp : UInt32) (payload : List UInt8) (input : ClientPoll)
  | reset
  /-- Anything changes that has no part in acknowledgements. -/
  | change (c : Client)

def ClientOp.run : ClientOp → ClientM Unit
  | .poll input => Client.poll input
  | .recvMessage rounds => Client.recvMessage rounds
  | .tryFlush socket => tryFlushSendBuffer socket
  | .flushPending send => flushPendingOutbound send
  | .command msgStreamId amf send => sendCommandMsg msgStreamId amf send
  | .userControl payload send => sendUserControlMessage payload send
  | .userControlNonblocking payload socket => sendUserControlMessageNonblocking payload socket
  | .publishChunkSize => queuePublishChunkSize
  | .frame frameType timestamp payload input => sendFramePayload frameType timestamp payload input
  | .reset => modify resetSessionState
  | .change c => modify (fun d => { c with
      sendBuffer := d.sendBuffer
      ackBytesRemaining := d.ackBytesRemaining
      windowAckSize := d.windowAckSize
      bytesReceived := d.bytesReceived
      bytesAtLastAck := d.bytesAtLastAck })

namespace Watched

def call : ClientOp → WatchedM Unit
  | .poll input => poll input
  | .recvMessage rounds => recvMessage rounds
  | .tryFlush socket => leaving (tryFlushSendBuffer socket)
  | .flushPending send => leaving (flushPendingOutbound send)
  | .command msgStreamId amf send => command msgStreamId amf send
  | .userControl payload send => userControl payload send
  | .userControlNonblocking payload socket => userControlNonblocking payload socket
  | .frame frameType timestamp payload input => frame frameType timestamp payload input
  | .reset => do
    leaving (modify resetSessionState)
    modify (fun f => { f with received := 0 })
  | op => adding op.run

def step (f : Watched) (op : ClientOp) : Watched := ((call op).on f).2

end Watched

section Draining

/-- Bytes leave from the front, and the count of the waiting acknowledgement goes down. -/
structure Drains (b b' : List UInt8) (ack ack' : Option Nat) : Prop where
  bytes : ∃ n, n ≤ b.length ∧ b' = b.drop n ∧ ack'.getD 0 = ack.getD 0 - n
  positive : (∀ k, ack = some k → 0 < k) → ∀ k, ack' = some k → 0 < k
  was : ack'.isSome → ack.isSome

theorem Drains.refl (b : List UInt8) (ack : Option Nat) : Drains b b ack ack :=
  ⟨⟨0, Nat.zero_le _, rfl, rfl⟩, fun h => h, fun h => h⟩

theorem Drains.trans {b b' b'' : List UInt8} {ack ack' ack'' : Option Nat}
    (h : Drains b b' ack ack') (h' : Drains b' b'' ack' ack'') : Drains b b'' ack ack'' := by
  obtain ⟨n, hn, rfl, hcount⟩ := h.bytes
  obtain ⟨m, hm, rfl, hcount'⟩ := h'.bytes
  rw [List.length_drop] at hm
  refine ⟨⟨n + m, by omega, List.drop_drop, by omega⟩, ?_, ?_⟩
  · exact fun hp => h'.positive (h.positive hp)
  · exact fun hs => h.was (h'.was hs)

/-- All bytes leave, with an acknowledgement that is among them. -/
theorem Drains.all {b : List UInt8} {ack : Option Nat} (h : ack.getD 0 ≤ b.length) :
    Drains b [] ack none := by
  refine ⟨⟨b.length, Nat.le_refl _, List.drop_length.symm, ?_⟩, ?_, ?_⟩
  · exact (Nat.sub_eq_zero_of_le h).symm
  · intro _ k hk
    cases hk
  · intro hs
    cases hs

theorem note_drained (ack : Option Nat) (n : Nat) :
    Drains out.peek (out.drain (min n out.available)).peek ack
      (noteOutboundDrained ack (min n out.available)) := by
  rw [Buffer.peek_drain, Buffer.available_eq]
  refine ⟨⟨_, Nat.min_le_right _ _, rfl, ?_⟩, ?_, ?_⟩
  · cases ack with
    | none => simp [noteOutboundDrained]
    | some k =>
      simp only [noteOutboundDrained, Option.bind_some, Option.getD_some]
      split
      · rename_i hgone
        rw [Option.getD_none, hgone]
      · rfl
  · intro _ k hk
    obtain ⟨k₀, -, hk₀⟩ := Option.bind_eq_some_iff.mp hk
    split at hk₀
    · cases hk₀
    · cases hk₀
      omega
  · intro hs
    cases ack with
    | none => cases hs
    | some k => rfl

theorem drain_queued_drains (ack : Option Nat) :
    Drains out.peek (drainQueued socket out ack).2.1.peek ack (drainQueued socket out ack).2.2 := by
  induction socket generalizing out ack with
  | nil => exact .refl _ _
  | cons answer socket ih =>
    cases answer with
    | error e => exact .refl _ _
    | ok n =>
      unfold drainQueued
      dsimp only
      split
      · exact .refl _ _
      · exact (note_drained out ack n).trans (ih _ _)

theorem send_bounded_drains (ack : Option Nat) :
    Drains out.peek (sendBounded socket out ack).2.1.peek ack (sendBounded socket out ack).2.2 := by
  induction socket generalizing out ack with
  | nil => exact .refl _ _
  | cons answer socket ih =>
    cases answer with
    | error e => exact .refl _ _
    | ok n =>
      unfold sendBounded
      dsimp only
      split
      · exact .refl _ _
      · split
        · exact ih out ack
        · exact (note_drained out ack n).trans (ih _ _)

theorem transmit_drains :
    Drains c.sendBuffer.peek (c.transmit send).2.1.peek c.ackBytesRemaining
      (c.transmit send).2.2 := by
  unfold Client.transmit
  split
  · exact .refl _ _
  · cases send with
    | bounded socket => exact send_bounded_drains socket _ _
    | whole result => exact .refl _ _

/-- Bytes leave from the front, and only the send buffer and the counter change. -/
structure Flushes (c c' : Client) : Prop where
  drains : Drains c.sendBuffer.peek c'.sendBuffer.peek c.ackBytesRemaining c'.ackBytesRemaining
  received : c'.bytesReceived = c.bytesReceived

variable {c : Client} (hle : c.ackBytesRemaining.getD 0 ≤ c.sendBuffer.peek.length)

include hle

theorem try_flush_flushes (socket : Socket) :
    Flushes c ((tryFlushSendBuffer socket).on c).2 := by
  have hdrain := drain_queued_drains (if c.transport.isSome then socket else []) c.sendBuffer
    c.ackBytesRemaining
  simp only [tryFlushSendBuffer, Action.on, ExceptT.run_mk, StateT.run]
  generalize drainQueued _ c.sendBuffer c.ackBytesRemaining = r at hdrain
  obtain ⟨result, out, ack⟩ := r
  cases result with
  | error e => exact ⟨hdrain, rfl⟩
  | ok u =>
    dsimp only
    split
    · exact ⟨hdrain, rfl⟩
    · exact ⟨by rw [Buffer.peek_reset]; exact .all hle, rfl⟩

theorem send_queued_flushes (send : BlockingSend) : Flushes c ((sendQueued send).on c).2 := by
  have hdrain := transmit_drains c send
  simp only [sendQueued, Action.on, ExceptT.run_mk, StateT.run]
  generalize c.transmit send = r at hdrain
  obtain ⟨result, out, ack⟩ := r
  cases result with
  | error e => exact ⟨hdrain, rfl⟩
  | ok u => exact ⟨by rw [Buffer.peek_reset]; exact .all hle, rfl⟩

theorem flush_pending_flushes (send : BlockingSend) :
    Flushes c ((flushPendingOutbound send).on c).2 := by
  unfold flushPendingOutbound
  rw [Action.on_bind, Action.on_get]
  dsimp only
  split
  · exact ⟨.refl _ _, rfl⟩
  · exact send_queued_flushes hle send

end Draining

section Queueing

structure Queues (c c' : Client) : Prop where
  bytes : ∃ d, c'.sendBuffer.peek = c.sendBuffer.peek ++ d
  ack : c'.ackBytesRemaining = c.ackBytesRemaining
  received : c'.bytesReceived = c.bytesReceived

theorem queue_message_queues (msg : ChunkMessage) (payload : List UInt8) (c : Client) :
    Queues c ((queueMessage msg payload).on c).2 :=
  ⟨chunk_write_lengthens msg payload payload.length c.outChunkSize c.sendBuffer, rfl, rfl⟩

theorem queue_media_queues (frameType : FrameType) (timestamp : UInt32) (payload : List UInt8)
    (c : Client) : Queues c ((queueMedia frameType timestamp payload).on c).2 := by
  have hgrow := media_message_lengthens c.mediaOutHeaders c.compactMediaHeaders
    ⟨frameType, c.streamId, timestamp⟩ payload c.outChunkSize c.sendBuffer
  simp only [queueMedia, Action.on, ExceptT.run_mk, StateT.run]
  generalize (writeMediaMessage c.mediaOutHeaders c.compactMediaHeaders
    ⟨frameType, c.streamId, timestamp⟩ payload c.outChunkSize).on c.sendBuffer = r at hgrow
  obtain ⟨result, out⟩ := r
  cases result <;> exact ⟨hgrow, rfl, rfl⟩

theorem publish_chunk_size_queues : Queues c (queuePublishChunkSize.on c).2 := by
  unfold queuePublishChunkSize
  rw [Action.on_bind, Action.on_get]
  dsimp only
  split
  · exact ⟨⟨[], (List.append_nil _).symm⟩, rfl, rfl⟩
  · rw [Action.on_bind]
    generalize Bytes.toBe 4 _ = payload
    have hqueue : Queues c ((queueControlMessage rtmpMsgSetChunkSize payload).on c).2 :=
      queue_message_queues _ payload c
    generalize (queueControlMessage rtmpMsgSetChunkSize payload).on c = r at hqueue
    obtain ⟨result, c'⟩ := r
    cases result with
    | error e => exact hqueue
    | ok u => exact ⟨hqueue.bytes, hqueue.ack, hqueue.received⟩

/-- Nothing is queued, or one acknowledgement of the bytes received, when none waits. -/
inductive AckOutcome (c c' : Client) : Prop where
  | waits (same : c'.sendBuffer.peek = c.sendBuffer.peek)
      (ack : c'.ackBytesRemaining = c.ackBytesRemaining)
      (received : c'.bytesReceived = c.bytesReceived)
  | queues (idle : c.ackBytesRemaining = none)
      (sent : c'.sendBuffer.peek = c.sendBuffer.peek ++ ackMessage c.bytesReceived c.outChunkSize)
      (ack : c'.ackBytesRemaining = some c'.sendBuffer.available)
      (received : c'.bytesReceived = c.bytesReceived)

theorem on_queue_control (ty : UInt8) (payload : List UInt8) (c : Client) :
    (queueControlMessage ty payload).on c =
      (((chunkWrite { csid := 2, msgLength := payload.length, msgTypeId := ty } payload
          payload.length c.outChunkSize).on c.sendBuffer).1,
        { c with sendBuffer := ((chunkWrite
          { csid := 2, msgLength := payload.length, msgTypeId := ty } payload payload.length
          c.outChunkSize).on c.sendBuffer).2 }) :=
  rfl

def AckFits (c : Client) : Prop :=
  c.sendBuffer.peek.length + (ackMessage c.bytesReceived c.outChunkSize).length ≤ bufferMaxSize

theorem ack_write_spec : AllOrNothing (chunkWrite
    { csid := 2, msgLength := (Bytes.toBe 4 (c.bytesReceived % 2 ^ 32)).length,
      msgTypeId := rtmpMsgAcknowledgement } (Bytes.toBe 4 (c.bytesReceived % 2 ^ 32))
    (Bytes.toBe 4 (c.bytesReceived % 2 ^ 32)).length c.outChunkSize)
    (ackMessage c.bytesReceived c.outChunkSize) () :=
  control_write_spec rtmpMsgAcknowledgement _ c.outChunkSize (by simp [rtmpWireMaxMsgLength])

theorem send_window_ack_fits {c : Client} (h : AckFits c) :
    ∃ out, out.peek = c.sendBuffer.peek ++ ackMessage c.bytesReceived c.outChunkSize ∧
      (sendWindowAck c.bytesReceived).on c = (.ok (), { c with
        sendBuffer := out
        bytesAtLastAck := c.bytesReceived
        ackBytesRemaining := some out.available }) := by
  rw [AckFits] at h
  have hspec := ack_write_spec c c.sendBuffer
  rw [if_pos h] at hspec
  obtain ⟨out, ho, hp⟩ := hspec
  refine ⟨out, hp, ?_⟩
  rw [sendWindowAck, Action.on_bind, on_queue_control, ho]
  rfl

theorem send_window_ack_refused {c : Client} (h : ¬ AckFits c) :
    ∃ out, out.peek = c.sendBuffer.peek ∧
      (sendWindowAck c.bytesReceived).on c = (.error .internal, { c with sendBuffer := out }) := by
  rw [AckFits] at h
  have hspec := ack_write_spec c c.sendBuffer
  rw [if_neg h] at hspec
  obtain ⟨out, ho, hp⟩ := hspec
  refine ⟨out, hp, ?_⟩
  rw [sendWindowAck, Action.on_bind, on_queue_control, ho]

/-- With no acknowledgement waiting and one due, one is sent. -/
theorem maybe_send_due {c : Client} (hidle : c.ackBytesRemaining = none) (hdue : c.AckDue) :
    maybeSendWindowAck.on c = (sendWindowAck c.bytesReceived).on c := by
  rw [maybeSendWindowAck, Action.on_bind, Action.on_get]
  dsimp only
  rw [hidle, if_neg (by simp), if_pos hdue]

theorem maybe_send_window_ack_outcome :
    AckOutcome c (maybeSendWindowAck.on c).2 := by
  by_cases hdue : c.ackBytesRemaining = none ∧ c.AckDue
  · rw [maybe_send_due hdue.1 hdue.2]
    by_cases hfits : AckFits c
    · obtain ⟨out, hp, hrun⟩ := send_window_ack_fits hfits
      rw [hrun]
      exact .queues hdue.1 hp rfl rfl
    · obtain ⟨out, hp, hrun⟩ := send_window_ack_refused hfits
      rw [hrun]
      exact .waits hp rfl rfl
  · have hsame : (maybeSendWindowAck.on c).2 = c := by
      rw [maybeSendWindowAck, Action.on_bind, Action.on_get]
      dsimp only
      split
      · rfl
      · rename_i hidle
        rw [if_neg (fun h => hdue ⟨by simpa using hidle, h⟩)]
        rfl
    rw [hsame]
    exact .waits rfl rfl rfl

end Queueing

/-- Only the latest acknowledgement waits, as far in as the counter says. -/
structure AckWaits (c : Client) (out : Outbox UInt8) (acks : Nat) : Prop where
  bytes : out.queue.map Prod.fst = c.sendBuffer.peek
  counted : out.Counted acks (c.ackBytesRemaining.getD 0)
  positive : ∀ k, c.ackBytesRemaining = some k → 0 < k
  whole : c.ackBytesRemaining.isSome →
    ∃ count chunkSize, out.message acks = ackMessage count chunkSize

namespace AckWaits

variable {c c' : Client} {out : Outbox UInt8} {acks : Nat}

theorem count_le (h : AckWaits c out acks) :
    c.ackBytesRemaining.getD 0 ≤ c.sendBuffer.peek.length := by
  rw [h.counted.count, ← h.bytes, List.length_map]
  exact Outbox.up_to_le _ _

theorem push (h : AckWaits c out acks) (hd : ∃ d, c'.sendBuffer.peek = c.sendBuffer.peek ++ d)
    (hack : c'.ackBytesRemaining = c.ackBytesRemaining) :
    AckWaits c' (out.push none (c'.sendBuffer.peek.drop c.sendBuffer.peek.length)) acks := by
  obtain ⟨d, hd⟩ := hd
  rw [hd, List.drop_left]
  refine ⟨?_, ?_, ?_, ?_⟩
  · rw [hd, ← h.bytes]
    simp [Outbox.push, Function.comp_def]
  · rw [hack]
    exact h.counted.push d
  · exact fun k hk => h.positive k (hack ▸ hk)
  · intro hs
    obtain ⟨count, chunkSize, hm⟩ := h.whole (hack ▸ hs)
    exact ⟨count, chunkSize, (Outbox.message_push ..).trans hm⟩

theorem release (h : AckWaits c out acks) (hm : Drains c.sendBuffer.peek c'.sendBuffer.peek
      c.ackBytesRemaining c'.ackBytesRemaining) :
    AckWaits c' (out.release (c.sendBuffer.peek.length - c'.sendBuffer.peek.length)) acks := by
  obtain ⟨⟨n, hn, hd, hcount⟩, hpos, hwas⟩ := hm
  rw [hd, List.length_drop, Nat.sub_sub_self hn]
  refine ⟨?_, ?_, hpos h.positive, ?_⟩
  · rw [hd, ← h.bytes]
    simp [Outbox.release]
  · rw [hcount]
    exact h.counted.release n
  · intro hs
    obtain ⟨count, chunkSize, hm⟩ := h.whole (hwas hs)
    exact ⟨count, chunkSize, (Outbox.message_release ..).trans hm⟩

/-- Nothing happens to the output, or one acknowledgement joins it. -/
theorem next (h : AckWaits c out acks) (hout : AckOutcome c c') :
    AckWaits c'
      (out.push (some (acks + 1)) (c'.sendBuffer.peek.drop c.sendBuffer.peek.length))
      (if c.ackBytesRemaining.isNone ∧ c'.ackBytesRemaining.isSome then acks + 1 else acks) := by
  cases hout with
  | waits same ack _ =>
    have hnone : ¬ (c.ackBytesRemaining.isNone = true ∧ c'.ackBytesRemaining.isSome = true) := by
      rw [ack]
      cases c.ackBytesRemaining <;> simp
    have hpush : out.push (some (acks + 1)) [] = out := by simp [Outbox.push]
    rw [if_neg hnone, same, List.drop_length, hpush]
    refine ⟨h.bytes.trans same.symm, ?_, ?_, ?_⟩
    · rw [ack]
      exact h.counted
    · exact fun k hk => h.positive k (ack ▸ hk)
    · exact fun hs => h.whole (ack ▸ hs)
  | queues idle sent ack _ =>
    have hasked : c.ackBytesRemaining.isNone = true ∧ c'.ackBytesRemaining.isSome = true := by
      rw [idle, ack]
      exact ⟨rfl, rfl⟩
    have hzero : out.Counted acks 0 := by
      have hc := h.counted
      rwa [idle] at hc
    have hne : ackMessage c.bytesReceived c.outChunkSize ≠ [] := control_bytes_ne_nil _ _ _
    have havailable : c'.sendBuffer.available =
        out.queue.length + (ackMessage c.bytesReceived c.outChunkSize).length := by
      rw [Buffer.available_eq, sent, List.length_append, ← h.bytes, List.length_map]
    rw [if_pos hasked, sent, List.drop_left]
    refine ⟨?_, ?_, ?_, ?_⟩
    · rw [sent, ← h.bytes]
      simp [Outbox.push, Function.comp_def]
    · rw [ack, Option.getD_some, havailable]
      exact hzero.next hne
    · intro k hk
      rw [ack] at hk
      cases hk
      have hpos := List.length_pos_iff.mpr hne
      omega
    · exact fun _ => ⟨_, _, hzero.message_next _⟩

end AckWaits

/-- The invariant of a run; bytes that came in are counted as far as the counter goes. -/
structure AckFollowed (f : Watched) : Prop extends AckWaits f.client f.out f.acks where
  received : f.client.bytesReceived = min f.received usizeMax

/-- The client does the same when its output is followed, and the invariant is kept. -/
structure Shadows {α : Type} (m : WatchedM α) (n : ClientM α) : Prop where
  same : Projects Watched.client m n
  keeps : ∀ f, AckFollowed f → AckFollowed (m.on f).2

section Calls

variable {α β : Type}

theorem shadows_pure (a : α) : Shadows (pure a) (pure a) := ⟨projects_pure a, fun _ hf => hf⟩

theorem shadows_throw (e : ErrorCode) : Shadows (throw e : WatchedM α) (throw e) :=
  ⟨projects_throw e, fun _ hf => hf⟩

theorem Shadows.bind {m : WatchedM α} {n : ClientM α} {k : α → WatchedM β} {l : α → ClientM β}
    (hm : Shadows m n) (hk : ∀ a, Shadows (k a) (l a)) : Shadows (m >>= k) (n >>= l) := by
  refine ⟨hm.same.bind fun a => (hk a).same, fun f hf => ?_⟩
  have hf' := hm.keeps f hf
  rw [Action.on_bind]
  generalize m.on f = r at hf'
  obtain ⟨result, f'⟩ := r
  cases result with
  | error e => exact hf'
  | ok a => exact (hk a).keeps f' hf'

theorem shadows_get {k : Watched → WatchedM α} {l : Client → ClientM α}
    (hk : ∀ f, Shadows (k f) (l f.client)) : Shadows (get >>= k) (get >>= l) :=
  ⟨projects_get fun f => (hk f).same, fun f hf => (hk f).keeps f hf⟩

theorem shadows_ite {p : Prop} [Decidable p] {m m' : WatchedM α} {n n' : ClientM α}
    (h : Shadows m n) (h' : Shadows m' n') :
    Shadows (if p then m else m') (if p then n else n') := by
  split
  · exact h
  · exact h'

theorem shadows_adding {m : ClientM Unit} (hm : ∀ c, Queues c (m.on c).2) : Shadows (adding m) m :=
  ⟨fun _ => ⟨rfl, rfl⟩, fun f hf =>
    ⟨hf.toAckWaits.push (hm f.client).bytes (hm f.client).ack,
      (hm f.client).received.trans hf.received⟩⟩

theorem shadows_leaving {m : ClientM Unit}
    (hm : ∀ c, c.ackBytesRemaining.getD 0 ≤ c.sendBuffer.peek.length → Flushes c (m.on c).2) :
    Shadows (leaving m) m :=
  ⟨fun _ => ⟨rfl, rfl⟩, fun f hf =>
    ⟨hf.toAckWaits.release (hm f.client hf.count_le).drains,
      (hm f.client hf.count_le).received.trans hf.received⟩⟩

/-- A change to what has no part in the output. -/
theorem shadows_change {g : Client → Client} (hs : ∀ c, (g c).sendBuffer = c.sendBuffer)
    (ha : ∀ c, (g c).ackBytesRemaining = c.ackBytesRemaining)
    (hr : ∀ c, (g c).bytesReceived = c.bytesReceived) :
    Shadows (adding (modify g)) (modify g) :=
  shadows_adding fun c => ⟨⟨[], (congrArg Buffer.peek (hs c)).trans (List.append_nil _).symm⟩, ha c,
    hr c⟩

theorem shadows_queue (msg : ChunkMessage) (payload : List UInt8) :
    Shadows (adding (queueMessage msg payload)) (queueMessage msg payload) :=
  shadows_adding (queue_message_queues msg payload)

theorem shadows_try_flush :
    Shadows (leaving (tryFlushSendBuffer socket)) (tryFlushSendBuffer socket) :=
  shadows_leaving (fun _ hle => try_flush_flushes hle socket)

theorem shadows_send :
    Shadows (leaving (sendQueued send)) (sendQueued send) :=
  shadows_leaving (fun _ hle => send_queued_flushes hle send)

theorem shadows_flush_pending :
    Shadows (leaving (flushPendingOutbound send)) (flushPendingOutbound send) :=
  shadows_leaving (fun _ hle => flush_pending_flushes hle send)

theorem shadows_count (n : Nat) : Shadows (Watched.count n) (noteBytesReceived n) := by
  refine ⟨fun f => ⟨rfl, rfl⟩, fun f hf => ?_⟩
  refine ⟨hf.toAckWaits.push ⟨[], (List.append_nil _).symm⟩ rfl, ?_⟩
  change satAdd f.client.bytesReceived n = min (f.received + n) usizeMax
  rw [hf.received, satAdd]
  omega

theorem shadows_ack : Shadows (acking maybeSendWindowAck) maybeSendWindowAck := by
  refine ⟨fun f => ⟨rfl, rfl⟩, fun f hf => ?_⟩
  have hout := maybe_send_window_ack_outcome f.client
  refine ⟨hf.toAckWaits.next hout, Eq.trans ?_ hf.received⟩
  cases hout with
  | waits _ _ received => exact received
  | queues _ _ _ received => exact received

theorem shadows_ping (token : UInt32) (socket : Socket) :
    Shadows (Watched.ping terminalDrain token socket) (handlePing terminalDrain token socket) :=
  shadows_ite (shadows_pure ()) ((shadows_queue _ _).bind fun _ => shadows_try_flush socket)

theorem shadows_message :
    Shadows (Watched.message terminalDrain m) (Client.handleMessage terminalDrain m) := by
  cases m with
  | windowAckSize size => exact shadows_change (fun _ => rfl) (fun _ => rfl) (fun _ => rfl)
  | pingRequest token socket => exact shadows_ping terminalDrain token socket
  | control => exact shadows_pure ()
  | other => exact shadows_pure ()
  | fails e => exact shadows_throw e

theorem shadows_drain (messages : List ServerMessage) (processed : Nat) :
    Shadows (Watched.drainReady terminalDrain messages processed)
      (drainReadyMessages terminalDrain messages processed) := by
  induction messages generalizing processed with
  | nil => exact shadows_pure processed
  | cons m messages ih =>
    exact shadows_ite (shadows_pure processed)
      ((shadows_message terminalDrain m).bind fun _ => ih (processed + 1))

theorem shadows_recv_inbound (reads : List (Received × List ServerMessage))
    (drained processed : Nat) :
    Shadows (Watched.recvInbound reads drained processed)
      (Client.recvInbound reads drained processed) := by
  induction reads generalizing drained processed with
  | nil => exact shadows_pure ()
  | cons read reads ih =>
    obtain ⟨received, ready⟩ := read
    apply shadows_ite (shadows_pure ())
    cases received with
    | bytes n =>
      exact (shadows_count n).bind fun _ => (shadows_drain false ready processed).bind fun p =>
        ih (drained + n) p
    | overflow => exact shadows_throw _
    | ended => exact shadows_throw _

theorem shadows_service (staged : List ServerMessage) (readable : Bool)
    (reads : List (Received × List ServerMessage)) :
    Shadows (Watched.service staged readable reads) (serviceInbound staged readable reads) := by
  have hread : Shadows (Watched.readInbound staged readable reads)
      (Client.readInbound staged readable reads) := by
    refine shadows_get fun f => shadows_ite (shadows_pure false) ?_
    refine (shadows_drain false staged 0).bind fun processed => ?_
    exact shadows_ite (shadows_pure false)
      ((shadows_recv_inbound reads 0 processed).bind fun _ => shadows_pure true)
  exact hread.bind fun reached => shadows_ite shadows_ack (shadows_pure ())

theorem shadows_drain_then_fail (ready : List ServerMessage) (processed : Nat) :
    Shadows (Watched.drainThenFail ready processed) (Client.drainThenFail ready processed) := by
  have hset (e : Option ErrorCode) :
      Shadows (adding (setTerminalIoError e)) (setTerminalIoError e) :=
    shadows_change (fun _ => rfl) (fun _ => rfl) (fun _ => rfl)
  refine (shadows_drain true ready processed).bind fun processed => shadows_get fun f => ?_
  exact shadows_ite (hset _) ((hset none).bind fun _ => shadows_throw _)

theorem shadows_recv_playing (reads : List Received) (drained : Nat) :
    Shadows (Watched.recvPlaying reads drained) (Client.recvPlaying reads drained) := by
  induction reads generalizing drained with
  | nil => exact shadows_pure false
  | cons received reads ih =>
    apply shadows_ite (shadows_pure false)
    cases received with
    | bytes n => exact (shadows_count n).bind fun _ => ih (drained + n)
    | overflow => exact shadows_throw _
    | ended => exact shadows_pure true

theorem shadows_read_playing :
    Shadows (Watched.readPlaying input) (Client.readPlaying input) := by
  refine (shadows_try_flush _).bind fun _ => shadows_get fun f => ?_
  refine shadows_ite (shadows_throw _) (shadows_ite ?_ ?_)
  · exact (shadows_drain_then_fail _ 0).bind fun _ => shadows_pure false
  · refine (shadows_drain false _ 0).bind fun processed => ?_
    refine (shadows_recv_playing _ 0).bind fun ended => shadows_ite ?_ ?_
    · exact (shadows_drain_then_fail _ processed).bind fun _ => shadows_pure false
    · exact (shadows_drain false _ processed).bind fun _ => shadows_pure true

theorem shadows_retry :
    Shadows (Watched.retryFlush input) (Client.retryFlush input) := by
  refine shadows_get fun f => shadows_ite ?_ (shadows_pure ())
  cases input.writable with
  | error e => exact shadows_ite (shadows_throw e) (shadows_try_flush _)
  | ok _ => exact shadows_try_flush _

theorem shadows_poll : Shadows (Watched.poll input) (Client.poll input) := by
  refine shadows_get fun f => shadows_ite ?_ (shadows_ite ?_ (shadows_throw _))
  · exact (shadows_try_flush _).bind fun _ => (shadows_retry input).bind fun _ =>
      (shadows_service _ _ _).bind fun _ => shadows_try_flush _
  · refine (shadows_read_playing input).bind fun reached => shadows_ite ?_ (shadows_pure ())
    exact shadows_ack.bind fun _ => shadows_try_flush _

theorem shadows_consume :
    Shadows (Watched.consume m) (consumeProtocolControlMessage m) := by
  cases m with
  | windowAckSize size =>
    have hset : Shadows (adding (setWindowAckSize size)) (setWindowAckSize size) :=
      shadows_change (fun _ => rfl) (fun _ => rfl) (fun _ => rfl)
    exact hset.bind fun _ => shadows_ack.bind fun _ => shadows_pure true
  | pingRequest token socket =>
    exact (shadows_ping false token socket).bind fun _ => shadows_pure true
  | control => exact shadows_pure true
  | other => exact shadows_pure false
  | fails e => exact shadows_throw e

theorem shadows_recv_message (rounds : List RecvRound) :
    Shadows (Watched.recvMessage rounds) (Client.recvMessage rounds) := by
  induction rounds with
  | nil => exact shadows_throw _
  | cons round rounds ih =>
    cases round with
    | staged m send =>
      refine (shadows_consume m).bind fun consumed => shadows_ite ?_ (shadows_pure ())
      exact (shadows_flush_pending send).bind fun _ => ih
    | bytes n send =>
      have hbytes : Shadows (Watched.recvBytes n send) (Client.recvBytes n send) :=
        (shadows_count n).bind fun _ => shadows_ack.bind fun _ => shadows_flush_pending send
      exact hbytes.bind fun _ => ih
    | fails e => exact shadows_throw e

theorem shadows_frame (frameType : FrameType) (timestamp : UInt32) (payload : List UInt8)
    (input : ClientPoll) :
    Shadows (Watched.frame frameType timestamp payload input)
      (sendFramePayload frameType timestamp payload input) := by
  refine shadows_get fun f => shadows_ite (shadows_throw _) ?_
  refine (shadows_try_flush _).bind fun _ => (shadows_service _ _ _).bind fun _ => ?_
  refine shadows_ite (shadows_throw _) ?_
  exact (shadows_adding (queue_media_queues frameType timestamp payload)).bind fun _ =>
    shadows_try_flush _

theorem shadows_reset : Shadows (Watched.call .reset) ClientOp.reset.run := by
  refine ⟨fun f => ⟨rfl, rfl⟩, fun f hf => ?_⟩
  have hreset : Drains f.client.sendBuffer.peek f.client.resetSessionState.sendBuffer.peek
      f.client.ackBytesRemaining f.client.resetSessionState.ackBytesRemaining := by
    rw [resetSessionState, Buffer.peek_reset]
    exact .all hf.count_le
  exact ⟨hf.toAckWaits.release hreset, (Nat.zero_min _).symm⟩

/-- Following the output changes nothing about the client, and keeps the invariant. -/
theorem shadows_call (op : ClientOp) : Shadows (Watched.call op) op.run := by
  cases op with
  | poll input => exact shadows_poll input
  | recvMessage rounds => exact shadows_recv_message rounds
  | tryFlush socket => exact shadows_try_flush socket
  | flushPending send => exact shadows_flush_pending send
  | command msgStreamId amf send => exact (shadows_queue _ amf).bind fun _ => shadows_send send
  | userControl payload send => exact (shadows_queue _ payload).bind fun _ => shadows_send send
  | userControlNonblocking payload socket =>
    exact (shadows_queue _ payload).bind fun _ => shadows_try_flush socket
  | publishChunkSize => exact shadows_adding publish_chunk_size_queues
  | frame frameType timestamp payload input => exact shadows_frame frameType timestamp payload input
  | reset => exact shadows_reset
  | change c => exact shadows_change (fun _ => rfl) (fun _ => rfl) (fun _ => rfl)

end Calls

inductive AckPoint where
  | service (staged : List ServerMessage) (readable : Bool)
      (reads : List (Received × List ServerMessage))
  | playing (input : ClientPoll)
  | bytes (n : Nat) (send : BlockingSend)
  | window (size : UInt32)

namespace AckPoint

def run : AckPoint → ClientM Unit
  | .service staged readable reads => serviceInbound staged readable reads
  | .playing input => pollPlaying input
  | .bytes n send => Client.recvBytes n send
  | .window size => do
    let _ ← consumeProtocolControlMessage (.windowAckSize size)

def before : AckPoint → ClientM Bool
  | .service staged readable reads => Client.readInbound staged readable reads
  | .playing input => Client.readPlaying input
  | .bytes n _ => do
    noteBytesReceived n
    pure true
  | .window size => do
    setWindowAckSize size
    pure true

def after : AckPoint → ClientM Unit
  | .service _ _ _ => pure ()
  | .playing input => tryFlushSendBuffer input.after
  | .bytes _ send => flushPendingOutbound send
  | .window _ => pure ()

theorem run_eq (p : AckPoint) : p.run = p.before >>= fun reached =>
    if reached then maybeSendWindowAck >>= fun _ => p.after else pure () := by
  cases p with
  | service staged readable reads => simp [run, before, after, serviceInbound]
  | playing input => rfl
  | bytes n send => rfl
  | window size => simp [run, before, after, consumeProtocolControlMessage]

end AckPoint

section Reading

variable {c c' : Client}

theorem try_flush_received (c : Client) :
    ((tryFlushSendBuffer socket).on c).2.bytesReceived = c.bytesReceived := by
  simp only [tryFlushSendBuffer, Action.on, ExceptT.run_mk, StateT.run]
  generalize drainQueued _ c.sendBuffer c.ackBytesRemaining = r
  obtain ⟨result, out, ack⟩ := r
  cases result with
  | error e => rfl
  | ok u =>
    dsimp only
    split <;> rfl

/-- Messages that are handled bring no bytes in. -/
theorem message_received (c : Client) :
    ((Client.handleMessage terminalDrain m).on c).2.bytesReceived = c.bytesReceived := by
  cases m with
  | pingRequest token socket =>
    cases terminalDrain with
    | true => rfl
    | false =>
      change ((sendUserControlMessageNonblocking _ socket).on c).2.bytesReceived = _
      rw [sendUserControlMessageNonblocking, Action.on_bind, on_queue_control]
      generalize (chunkWrite _ _ _ c.outChunkSize).on c.sendBuffer = r
      obtain ⟨result, out⟩ := r
      cases result with
      | error e => rfl
      | ok u => exact try_flush_received socket _
  | _ => rfl

theorem drain_received (messages : List ServerMessage) (processed : Nat)
    (c : Client) :
    ((drainReadyMessages terminalDrain messages processed).on c).2.bytesReceived =
      c.bytesReceived := by
  induction messages generalizing processed c with
  | nil => rfl
  | cons m messages ih =>
    unfold drainReadyMessages
    split
    · rfl
    · have hfirst := message_received terminalDrain m c
      rw [Action.on_bind]
      generalize (Client.handleMessage terminalDrain m).on c = r at hfirst
      obtain ⟨result, d⟩ := r
      cases result with
      | error e => exact hfirst
      | ok u => exact (ih _ d).trans hfirst

/-- Without a look at acknowledgements, `service_inbound` has received nothing. -/
theorem read_inbound_received {staged : List ServerMessage} {readable : Bool}
    {reads : List (Received × List ServerMessage)}
    (h : (Client.readInbound staged readable reads).on c = (.ok false, c')) :
    c'.bytesReceived = c.bytesReceived := by
  rw [Client.readInbound, Action.on_bind, Action.on_get] at h
  dsimp only at h
  split at h
  · cases h
    rfl
  · obtain ⟨processed, d, hdrain, h⟩ := Action.on_bind_ok h
    split at h
    · cases h
      rw [← drain_received false staged 0 c, hdrain]
    · obtain ⟨_, _, _, h⟩ := Action.on_bind_ok h
      cases h

theorem drain_then_fail_ended {ready : List ServerMessage} {processed : Nat}
    (h : (Client.drainThenFail ready processed).on c = (.ok (), c')) :
    c'.terminalIoError.isSome = true := by
  obtain ⟨processed, d, _, h⟩ := Action.on_bind_ok h
  rw [Action.on_bind, Action.on_get] at h
  dsimp only at h
  split at h
  · cases h
    rfl
  · cases h

/-- Without a look at acknowledgements, a poll while playing has met the end of the stream. -/
theorem read_playing_ended {input : ClientPoll}
    (h : (Client.readPlaying input).on c = (.ok false, c')) : c'.terminalIoError.isSome = true := by
  have hfail {ready : List ServerMessage} {processed : Nat} {d : Client}
      (h : (Client.drainThenFail ready processed >>= fun _ => pure false).on d = (.ok false, c')) :
      c'.terminalIoError.isSome = true := by
    obtain ⟨_, _, hdrained, h⟩ := Action.on_bind_ok h
    cases h
    exact drain_then_fail_ended hdrained
  obtain ⟨_, d, _, h⟩ := Action.on_bind_ok h
  rw [Action.on_bind, Action.on_get] at h
  dsimp only at h
  split at h
  · cases h
  split at h
  · exact hfail h
  · obtain ⟨processed, _, _, h⟩ := Action.on_bind_ok h
    obtain ⟨ended, _, _, h⟩ := Action.on_bind_ok h
    split at h
    · exact hfail h
    · obtain ⟨_, _, _, h⟩ := Action.on_bind_ok h
      cases h

theorem missed_received {p : AckPoint} (h : p.before.on c = (.ok false, c')) :
    c'.bytesReceived = c.bytesReceived ∨ c'.terminalIoError.isSome = true := by
  cases p with
  | service staged readable reads => exact .inl (read_inbound_received h)
  | playing input => exact .inr (read_playing_ended h)
  | bytes n send => cases h
  | window size => cases h

end Reading

/-- A due acknowledgement is queued with the count of the bytes received, or refused as a whole. -/
theorem due_ack_queued {c c' : Client} {p : AckPoint} (h : p.before.on c = (.ok true, c'))
    (hidle : c'.ackBytesRemaining = none) (hdue : c'.AckDue) :
    (AckFits c' → ∃ out,
      out.peek = c'.sendBuffer.peek ++ ackMessage c'.bytesReceived c'.outChunkSize ∧
      p.run.on c = p.after.on { c' with
        sendBuffer := out
        bytesAtLastAck := c'.bytesReceived
        ackBytesRemaining := some out.available }) ∧
    (¬ AckFits c' → ∃ out, out.peek = c'.sendBuffer.peek ∧
      p.run.on c = (.error .internal, { c' with sendBuffer := out })) := by
  rw [p.run_eq, Action.on_bind, h]
  dsimp only
  rw [if_pos rfl, Action.on_bind, maybe_send_due hidle hdue]
  refine ⟨fun hfits => ?_, fun hfull => ?_⟩
  · obtain ⟨out, hpeek, hrun⟩ := send_window_ack_fits hfits
    exact ⟨out, hpeek, by rw [hrun]⟩
  · obtain ⟨out, hpeek, hrun⟩ := send_window_ack_refused hfull
    exact ⟨out, hpeek, by rw [hrun]⟩

/-- In every run of a new client at most one acknowledgement waits, and the counter is set exactly
while one does, to where its last byte is. Every call that takes bytes in looks for one that is due
once it has read, unless it fails before, has received nothing or has met the end of the stream. If
none waits, it is queued with the count of the bytes received, or refused as a whole. -/
theorem one_ack_waits (ops : List ClientOp) :
    let f := Runs.exec Watched.step { client := {} } ops
    f.out.queue.map Prod.fst = f.client.sendBuffer.peek ∧
      f.client.bytesReceived = min f.received usizeMax ∧
      ((∃ k, 0 < k ∧ f.client.ackBytesRemaining = some k) ↔ ∃ x ∈ f.out.queue, x.2.isSome) ∧
      (∀ k, f.client.ackBytesRemaining = some k → 0 < k ∧
        (f.out.queue[k - 1]?).map Prod.snd = some (some f.acks) ∧
        (∀ x ∈ f.out.queue.drop k, x.2 = none) ∧
        ∃ count chunkSize, f.out.message f.acks = ackMessage count chunkSize) ∧
      (∀ x ∈ f.out.queue, ∀ i, x.2 = some i → i = f.acks) ∧
      (∀ (p : AckPoint) (c c' : Client),
        (∀ e, p.before.on c = (.error e, c') → p.run.on c = (.error e, c')) ∧
        (p.before.on c = (.ok false, c') → p.run.on c = (.ok (), c') ∧
          (c'.bytesReceived = c.bytesReceived ∨ c'.terminalIoError.isSome)) ∧
        (p.before.on c = (.ok true, c') → c'.ackBytesRemaining = none → c'.AckDue →
          (AckFits c' → ∃ out,
            out.peek = c'.sendBuffer.peek ++ ackMessage c'.bytesReceived c'.outChunkSize ∧
            p.run.on c = p.after.on { c' with
              sendBuffer := out
              bytesAtLastAck := c'.bytesReceived
              ackBytesRemaining := some out.available }) ∧
          (¬ AckFits c' → ∃ out, out.peek = c'.sendBuffer.peek ∧
            p.run.on c = (.error .internal, { c' with sendBuffer := out })))) := by
  have hstart : AckFollowed { client := {} } := by
    refine ⟨⟨by simp, .new, ?_, ?_⟩, rfl⟩
    · intro k hk
      cases hk
    · intro hs
      cases hs
  have hf : AckFollowed (Runs.exec Watched.step { client := {} } ops) :=
    Runs.exec_invariant (fun f op hf => (shadows_call op).keeps f hf) hstart ops
  generalize Runs.exec Watched.step { client := {} } ops = f at hf
  refine ⟨hf.bytes, hf.received, ?_, ?_, hf.counted.only, ?_⟩
  · constructor
    · rintro ⟨k, hpos, hk⟩
      have hcount := hf.counted.count
      rw [hk, Option.getD_some] at hcount
      by_contra hnone
      have hclear : ∀ x ∈ f.out.queue, x.2 ≠ some f.acks := by
        intro x hx hi
        exact hnone ⟨x, hx, by rw [hi]; rfl⟩
      have hzero : f.out.remaining f.acks = 0 := Outbox.up_to_none hclear
      omega
    · rintro ⟨x, hx, hsome⟩
      cases hk : f.client.ackBytesRemaining with
      | some k => exact ⟨k, hf.positive k hk, rfl⟩
      | none =>
        have hc := hf.counted
        rw [hk] at hc
        rw [hc.clear x hx] at hsome
        cases hsome
  · intro k hk
    have hcount := hf.counted.count
    rw [hk, Option.getD_some, Outbox.remaining] at hcount
    have hpos := hf.positive k hk
    refine ⟨hpos, ?_, ?_, hf.whole (by rw [hk]; rfl)⟩
    · rw [hcount] at hpos ⊢
      exact Outbox.up_to_at hpos
    · intro x hx
      rw [Option.eq_none_iff_forall_ne_some]
      intro i hi
      have hlast := hf.counted.only x (List.mem_of_mem_drop hx) i hi
      rw [hcount] at hx
      exact Outbox.up_to_after f.acks f.out.queue x hx (hlast ▸ hi)
  · intro p c c'
    refine ⟨fun e h => ?_, fun h => ⟨?_, missed_received h⟩,
      fun h hidle hdue => due_ack_queued h hidle hdue⟩
    · rw [p.run_eq, Action.on_bind, h]
    · rw [p.run_eq, Action.on_bind, h]
      rfl

section FullBuffer

def frameLen (k : Nat) : Nat := 12 + chunkBodyLen 6 k 128 false

/-- A publishing client with `n` bytes waiting that has acknowledged all 1024 it received. -/
@[mk_iff]
structure Filling (c : Client) (n : Nat) : Prop where
  connected : c.transport.isSome = true
  publishing : c.state = .publishing
  idle : c.ackBytesRemaining = none
  whole : c.compactMediaHeaders = false
  chunkSize : c.outChunkSize = 128
  window : c.windowAckSize = 1024
  received : c.bytesReceived = 1024
  acked : c.bytesAtLastAck = 1024
  waiting : c.sendBuffer.peek.length = n

namespace Filling

variable {c : Client} {n : Nat}

/-- The socket takes nothing. -/
theorem flush (h : Filling c n) :
    ∃ c', (tryFlushSendBuffer []).on c = (.ok (), c') ∧ Filling c' n := by
  have hrun : (tryFlushSendBuffer []).on c = (.ok (), if c.sendBuffer.available > 0 then c
      else { c with sendBuffer := c.sendBuffer.reset, ackBytesRemaining := none }) := by
    simp only [tryFlushSendBuffer, ite_self, Action.on, ExceptT.run_mk, StateT.run, drainQueued]
  refine ⟨_, hrun, ?_⟩
  split
  · exact h
  · rename_i hempty
    refine ⟨h.connected, h.publishing, rfl, h.whole, h.chunkSize, h.window, h.received, h.acked, ?_⟩
    rw [Buffer.available_eq, h.waiting] at hempty
    simp only [Buffer.peek_reset, List.length_nil]
    omega

/-- A frame that fits is queued behind what waits. -/
theorem media (h : Filling c n) {payload : List UInt8}
    (hwire : payload.length ≤ rtmpWireMaxMsgLength)
    (hfit : n + frameLen payload.length ≤ bufferMaxSize) :
    ∃ c', (queueMedia .video 0 payload).on c = (.ok (), c') ∧
      Filling c' (n + frameLen payload.length) := by
  obtain ⟨hd, hchoose, hlen⟩ : ∃ hd, c.mediaOutHeaders.choose c.compactMediaHeaders .video
      c.streamId 0 payload.length = .ok hd ∧
      (mediaBytes hd 0 payload 128).length = frameLen payload.length := by
    refine ⟨⟨6, 0, 0, 2, ⟨c.streamId, 0, payload.length, 0x09⟩⟩, ?_, ?_⟩
    · rw [h.whole]
      unfold MediaHeaderTracker.choose
      rw [if_neg (Nat.not_lt_of_le hwire)]
      cases hl : c.mediaOutHeaders.last 2 with
      | none => simp [mediaChunkStream, hl]
      | some prev => simp [mediaChunkStream, hl]
    · rw [mediaBytes, List.length_append, first_header_length (Nat.zero_le 2), body_bytes_length]
      rfl
  have hspec := @write_media_message_spec c.mediaOutHeaders c.compactMediaHeaders
    ⟨.video, c.streamId, 0⟩ payload hd hchoose 128 c.sendBuffer
  rw [h.waiting, hlen, if_pos hfit] at hspec
  obtain ⟨out, ho, hp⟩ := hspec
  refine ⟨{ c with sendBuffer := out, mediaOutHeaders := c.mediaOutHeaders.commit hd }, ?_, ?_⟩
  · simp only [queueMedia, Action.on, ExceptT.run_mk, StateT.run]
    rw [h.chunkSize, ho]
  · refine ⟨h.connected, h.publishing, h.idle, h.whole, h.chunkSize, h.window, h.received,
      h.acked, ?_⟩
    rw [hp, List.length_append, h.waiting, hlen]

/-- There is no input. -/
theorem service (c : Client) : (serviceInbound [] false []).on c = (.ok (), c) := by
  have hread : (Client.readInbound [] false []).on c = (.ok false, c) := by
    rw [Client.readInbound, Action.on_bind, Action.on_get]
    dsimp only
    split <;> rfl
  rw [serviceInbound, Action.on_bind, hread]
  rfl

theorem frame (h : Filling c n) {payload : List UInt8}
    (hsize : payload.length ≤ maxClientFrameBytes)
    (hfit : n + frameLen payload.length ≤ bufferMaxSize) :
    Filling ((ClientOp.frame .video 0 payload { readable := false }).run.on c).2
      (n + frameLen payload.length) := by
  obtain ⟨c₁, hflush, h₁⟩ := h.flush
  obtain ⟨c₂, hmedia, h₂⟩ := h₁.media (Nat.le_trans hsize (by decide)) hfit
  obtain ⟨c₃, hlast, h₃⟩ := h₂.flush
  have hrun : (ClientOp.frame .video 0 payload { readable := false }).run.on c = (.ok (), c₃) := by
    simp only [ClientOp.run, sendFramePayload]
    rw [Action.on_bind, Action.on_get]
    dsimp only
    rw [if_neg (by simp [h.publishing]), Action.on_bind, hflush]
    dsimp only
    rw [Action.on_bind, service]
    dsimp only
    rw [if_neg (Nat.not_lt_of_le hsize), Action.on_bind, hmedia]
    exact hlast
  rw [hrun]
  exact h₃

/-- Frames pile up as long as there is room. -/
theorem frames {f : Watched} (h : Filling f.client n) {payload : List UInt8}
    (hsize : payload.length ≤ maxClientFrameBytes) (k : Nat)
    (hfit : n + k * frameLen payload.length ≤ bufferMaxSize) :
    Filling (Runs.exec Watched.step f
        (List.replicate k (.frame .video 0 payload { readable := false }))).client
      (n + k * frameLen payload.length) := by
  induction k generalizing f n with
  | zero => simpa [Runs.exec] using h
  | succ k ih =>
    rw [Nat.add_mul, Nat.one_mul] at hfit ⊢
    have hnext := h.frame hsize (by omega)
    rw [← ((shadows_call (.frame .video 0 payload { readable := false })).same f).2] at hnext
    have hrest := ih hnext (by omega)
    rwa [show n + frameLen payload.length + k * frameLen payload.length =
      n + (k * frameLen payload.length + frameLen payload.length) by omega] at hrest

/-- With no room left, the next acknowledgement that falls due is refused. -/
theorem refuses (h : Filling c bufferMaxSize) :
    let c' := ((Client.readInbound [] true [(.bytes 1024, [])]).on c).2
    c'.ackBytesRemaining = none ∧ c'.AckDue ∧
      ((serviceInbound [] true [(.bytes 1024, [])]).on c).1 = .error .internal ∧
      ((serviceInbound [] true [(.bytes 1024, [])]).on c).2.sendBuffer.peek =
        c'.sendBuffer.peek := by
  have hread : (Client.readInbound [] true [(.bytes 1024, [])]).on c =
      (.ok true, { c with bytesReceived := satAdd c.bytesReceived 1024 }) := by
    rw [Client.readInbound, Action.on_bind, Action.on_get]
    dsimp only
    rw [if_neg (by simp [Option.isSome_iff_ne_none.mp h.connected])]
    rfl
  rw [hread]
  intro c'
  have hidle : c'.ackBytesRemaining = none := h.idle
  have hdue : c'.AckDue := by
    simp only [c', AckDue, h.window, h.received, h.acked]
    decide
  have hfull : ¬ AckFits c' := by
    have hpos := List.length_pos_iff.mpr (control_bytes_ne_nil rtmpMsgAcknowledgement
      (Bytes.toBe 4 (c'.bytesReceived % 2 ^ 32)) c'.outChunkSize)
    have hlen : c'.sendBuffer.peek.length = bufferMaxSize := h.waiting
    rw [AckFits, hlen, ackMessage]
    omega
  have hcall : (AckPoint.service [] true [(.bytes 1024, [])]).before.on c = (.ok true, c') := hread
  obtain ⟨out, hpeek, hrun⟩ := (due_ack_queued hcall hidle hdue).2 hfull
  have hservice : (serviceInbound [] true [(.bytes 1024, [])]).on c = _ := hrun
  rw [hservice]
  exact ⟨hidle, hdue, rfl, hpeek⟩

end Filling

def firstAckSent : List ClientOp :=
  [.change { state := .publishing, transport := some ⟨false⟩, compactMediaHeaders := false },
    .poll { reads := [(.bytes 1024, [.windowAckSize 1024])], after := [.ok 16] }]

theorem first_ack_sent_filling :
    Filling (Runs.exec Watched.step { client := {} } firstAckSent).client 0 :=
  (filling_iff _ _).mpr (by decide +kernel)

instance (c : Client) : Decidable (AckFits c) := inferInstanceAs (Decidable (_ ≤ _))

/-- After another 1024 bytes the next one waits. -/
theorem second_ack_queued :
    let c := (Runs.exec Watched.step { client := {} } firstAckSent).client
    let c' := ((Client.readInbound [] true [(.bytes 1024, [])]).on c).2
    c'.bytesReceived = 2048 ∧ ∃ out,
      out.peek = c'.sendBuffer.peek ++ ackMessage c'.bytesReceived c'.outChunkSize ∧
      (serviceInbound [] true [(.bytes 1024, [])]).on c = (.ok (), { c' with
        sendBuffer := out
        bytesAtLastAck := c'.bytesReceived
        ackBytesRemaining := some out.available }) := by
  have hwaits := (one_ack_waits firstAckSent).2.2.2.2.2 (.service [] true [(.bytes 1024, [])])
  have hreads :
      let r := (Client.readInbound [] true [(.bytes 1024, [])]).on
        (Runs.exec Watched.step { client := {} } firstAckSent).client
      r.1 = .ok true ∧ r.2.bytesReceived = 2048 ∧ r.2.ackBytesRemaining = none ∧ r.2.AckDue ∧
        AckFits r.2 := by
    decide +kernel
  generalize (Runs.exec Watched.step { client := {} } firstAckSent).client = c at hreads
  obtain ⟨hreached, hcount, hidle, hdue, hfits⟩ := hreads
  exact ⟨hcount, ((hwaits c _).2.2 (Prod.ext hreached rfl) hidle hdue).1 hfits⟩

/-- After it, fifteen frames that the socket does not take and a last one. -/
def framesPileUp (big last : List UInt8) : List ClientOp :=
  firstAckSent ++ (List.replicate 15 (.frame .video 0 big { readable := false }) ++
    [.frame .video 0 last { readable := false }])

theorem piled_up {big last : List UInt8} (hbig : big.length = 4194304)
    (hlast : last.length = 3673905) :
    Filling (Runs.exec Watched.step { client := {} } (framesPileUp big last)).client
      bufferMaxSize := by
  rw [framesPileUp, Runs.exec_append, Runs.exec_append]
  have hmany := first_ack_sent_filling.frames (by rw [hbig]; decide) 15 (by rw [hbig]; decide)
  generalize Runs.exec Watched.step _ (List.replicate 15 _) = f at hmany
  have hfull := hmany.frame (by rw [hlast]; decide) (by rw [hbig, hlast]; decide)
  have hexact : 0 + 15 * frameLen 4194304 + frameLen 3673905 = bufferMaxSize := by decide
  rw [← ((shadows_call (.frame .video 0 last { readable := false })).same f).2, hbig, hlast,
    hexact] at hfull
  exact hfull

/-- A player whose server closes the stream right after the bytes that cross its window. -/
def playsToTheEnd : List ClientOp :=
  [.change { state := .playing, transport := some ⟨false⟩ },
    .poll { reads := [(.bytes 64, [.windowAckSize 1024])] },
    .poll { reads := [(.bytes 1024, []), (.ended, [])] }]

/-- The frames fill the send buffer to the last byte, so the second acknowledgement falls due and
finds no room; and a poll that meets the end of the stream queues none. -/
theorem crossings_without_ack :
    let c := (Runs.exec Watched.step { client := {} }
      (framesPileUp (List.replicate 4194304 0) (List.replicate 3673905 0))).client
    let c' := ((Client.readInbound [] true [(.bytes 1024, [])]).on c).2
    let f := Runs.exec Watched.step { client := {} } playsToTheEnd
    (c'.ackBytesRemaining = none ∧ c'.AckDue ∧
      ((serviceInbound [] true [(.bytes 1024, [])]).on c).1 = .error .internal ∧
      ((serviceInbound [] true [(.bytes 1024, [])]).on c).2.sendBuffer.peek =
        c'.sendBuffer.peek) ∧
    (f.client.ackBytesRemaining = none ∧ f.client.AckDue ∧ f.acks = 0) := by
  have hended : (Runs.exec Watched.step { client := {} } playsToTheEnd).client.ackBytesRemaining =
      none ∧ (Runs.exec Watched.step { client := {} } playsToTheEnd).client.AckDue ∧
      (Runs.exec Watched.step { client := {} } playsToTheEnd).acks = 0 := by
    decide +kernel
  refine ⟨?_, hended⟩
  exact (piled_up (List.length_replicate (a := 0)) (List.length_replicate (a := 0))).refuses

end FullBuffer

end LibRtmp.Proofs
