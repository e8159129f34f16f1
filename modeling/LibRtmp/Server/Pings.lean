import LibRtmp.Server.Pass

namespace LibRtmp

open Actions

def pingInterval : Nat := 5000
def pingTimeout : Nat := 10000
def writeStallTimeout : Nat := pingTimeout
def maxPendingPings : Nat := 4
def sendProgressThreshold : Nat := 4096

structure QueuedPing where
  token : UInt32
  queuedAt : Nat
  bytesUntilFlushed : Nat
  deriving DecidableEq, Repr

structure Keepalive where
  pendingPings : AList (fun _ : UInt32 => Nat) := ∅
  sendProgressBytes : Nat := 0
  lastSendProgress : Option Nat := none
  lastRecvProgress : Option Nat := none
  sendStalledSince : Option Nat := none
  queuedPing : Option QueuedPing := none
  lastPingSent : Option Nat := none
  nextPingToken : UInt32 := 1

structure Link where
  conn : Conn
  keep : Keepalive := {}

namespace Keepalive

def peerIsDraining (k : Keepalive) (now : Nat) : Bool :=
  k.lastSendProgress.any (fun t => now - t < pingTimeout)

def peerIsSending (k : Keepalive) (now : Nat) : Bool :=
  k.lastRecvProgress.any (fun t => now - t < pingTimeout)

def dropStale (k : Keepalive) (now : Nat) : Keepalive :=
  { k with pendingPings := Maps.retain (fun _ sent => now - sent < pingTimeout) k.pendingPings }

def noteBytesSent (k : Keepalive) (now n : Nat) : Keepalive :=
  let progress := satAdd k.sendProgressBytes n
  { k with
    sendStalledSince := if n > 0 then none else k.sendStalledSince
    sendProgressBytes := if progress ≥ sendProgressThreshold then 0 else progress
    lastSendProgress := if progress ≥ sendProgressThreshold then some now else k.lastSendProgress
    queuedPing := k.queuedPing.map (fun q =>
      { q with bytesUntilFlushed := q.bytesUntilFlushed - n }) }

/-- A ping that has left the send buffer waits for its answer from now on. -/
def commitFlushedPing (k : Keepalive) (now : Nat) : Keepalive :=
  match k.queuedPing with
  | none => k
  | some queued =>
    if queued.bytesUntilFlushed > 0 then k
    else
      { k with
        pendingPings := k.pendingPings.insert queued.token now
        lastPingSent := some now
        queuedPing := none }

def pingResponse (k : Keepalive) (token : UInt32) : Keepalive :=
  { k with pendingPings := k.pendingPings.erase token }

def noteParts (now : Nat) : Socket → List (List UInt8) → Nat → Keepalive → Keepalive
  | _, [], _, k => k
  | [], _, _, k => k
  | .error _ :: _, _, _, k => k
  | .ok n :: socket, parts, offset, k =>
    let sent := min n (parts.flatten.drop offset).length
    if sent = 0 then k
    else
      let (parts, next) := advanceParts parts offset sent
      noteParts now socket parts next (k.noteBytesSent now sent)

end Keepalive

def drainNoting (now : Nat) : Socket → Buffer → Keepalive →
    Except ErrorCode Unit × Buffer × Keepalive × List UInt8
  | [], out, k => (.ok (), out, k, [])
  | .error e :: _, out, k =>
    if out.available = 0 then (.ok (), out, k, []) else (.error e, out, k, [])
  | .ok n :: socket, out, k =>
    let sent := min n out.available
    if sent = 0 then (.ok (), out, k, [])
    else
      let (result, rest, k, taken) :=
        drainNoting now socket (out.drain sent) (k.noteBytesSent now sent)
      (result, rest, k, out.peek.take sent ++ taken)

namespace Link

def requestPing (l : Link) (now : Nat) : Except ErrorCode Unit × Link :=
  let token := l.keep.nextPingToken
  let keep := { l.keep with nextPingToken := token + 1 }
  match Action.on (sendPing (some token)) ⟨l.conn, ∅⟩ with
  | (.error e, s) => (.error e, ⟨s.conn, keep⟩)
  | (.ok _, s) =>
    (.ok (), ⟨s.conn, { keep with
      queuedPing := some ⟨token, now, s.conn.sendBuffer.available⟩ }⟩)

/-- With no ping queued: queue one unless the peer owes an answer. -/
def probe (l : Link) (now : Nat) (draining : Bool) : Except ErrorCode Unit × Link :=
  if draining ∧ l.keep.pendingPings.entries ≠ [] then (.ok (), l)
  else
    let hadStalePing :=
      !draining && l.keep.pendingPings.entries.any (fun e => now - e.2 ≥ pingTimeout)
    let keep := if draining then l.keep else l.keep.dropStale now
    if hadStalePing then (.error .protocol, ⟨l.conn, keep⟩)
    else if keep.pendingPings.entries.length + keep.queuedPing.isSome.toNat ≥ maxPendingPings then
      (.error .protocol, ⟨l.conn, keep⟩)
    else requestPing ⟨l.conn, keep⟩ now

def maybeSendPing (l : Link) (now : Nat) : Except ErrorCode Unit × Link :=
  if l.conn.state < .appConnected then (.ok (), l)
  else if l.keep.sendStalledSince.any (fun t => now - t ≥ writeStallTimeout) then
    (.error .protocol, l)
  else if l.keep.lastPingSent.any (fun t => now - t < pingInterval) then (.ok (), l)
  else
    let mediaToPeer := l.keep.peerIsDraining now
    let dataFromPeer := l.keep.peerIsSending now
    let draining := mediaToPeer || dataFromPeer
    let keep := if dataFromPeer && !mediaToPeer then l.keep.dropStale now else l.keep
    match keep.queuedPing with
    | some queued =>
      (if ¬ draining ∧ now - queued.queuedAt ≥ pingTimeout then .error .protocol else .ok (),
        ⟨l.conn, keep⟩)
    | none => probe ⟨l.conn, keep⟩ now draining

/-- An empty buffer lets go of its memory; one that is not makes the connection stalled. -/
def afterDrain (conn : Conn) (keep : Keepalive) (now : Nat) (out : Buffer) : Link :=
  if out.available = 0 then
    ⟨{ conn with sendBuffer := out.reset },
      { keep with sendStalledSince := none }.commitFlushedPing now⟩
  else
    ⟨{ conn with sendBuffer := out },
      { keep with sendStalledSince :=
          if conn.transport.isSome ∧ keep.sendStalledSince.isNone then some now
          else keep.sendStalledSince }.commitFlushedPing now⟩

def flush (l : Link) (now : Nat) (socket : Socket) : Except ErrorCode Unit × Link × List UInt8 :=
  if l.conn.clientFd.isNone ∨ l.conn.sendBuffer.available = 0 then
    (.ok (), ⟨l.conn, l.keep.commitFlushedPing now⟩, [])
  else
    match drainNoting now (if l.conn.transport.isSome then socket else []) l.conn.sendBuffer
        l.keep with
    | (.error e, out, keep, taken) =>
      (.error e, ⟨{ l.conn with sendBuffer := out }, keep⟩, taken)
    | (.ok _, out, keep, taken) => (.ok (), afterDrain l.conn keep now out, taken)

def sendStagedMedia (l : Link) (now : Nat) (socket : Socket) (parts : List (List UInt8)) :
    Except ErrorCode Unit × Link × List UInt8 :=
  match l.conn.sendStagedMedia socket parts with
  | (result, conn, taken) =>
    (result, ⟨conn, Keepalive.noteParts now (if l.conn.transport.isSome then socket else []) parts
      0 l.keep⟩, taken)

end Link

end LibRtmp
