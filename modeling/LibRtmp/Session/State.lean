import Mathlib.Data.List.AList
import LibRtmp.Chunk.MediaOut
import LibRtmp.Ertmp.Caps

namespace LibRtmp

inductive ConnState where
  | tcpAccepted | handshake | connected | capsNegotiated | appConnected | streamCreated
  | publishing | playing | closing | closed
  deriving DecidableEq, Repr

def ConnState.rank : ConnState → Nat
  | .tcpAccepted => 0
  | .handshake => 1
  | .connected => 2
  | .capsNegotiated => 3
  | .appConnected => 4
  | .streamCreated => 5
  | .publishing => 6
  | .playing => 7
  | .closing => 8
  | .closed => 9

instance : LT ConnState := ⟨fun a b => a.rank < b.rank⟩
instance : LE ConnState := ⟨fun a b => a.rank ≤ b.rank⟩
instance (a b : ConnState) : Decidable (a < b) := inferInstanceAs (Decidable (a.rank < b.rank))
instance (a b : ConnState) : Decidable (a ≤ b) := inferInstanceAs (Decidable (a.rank ≤ b.rank))

/-- A backward move is rejected, except between the two roles. -/
def connTransition (current new : ConnState) : Except ErrorCode ConnState :=
  let peerRoleSwitch :=
    (current = .playing ∧ new = .publishing) ∨ (current = .publishing ∧ new = .playing)
  if ¬ peerRoleSwitch ∧ new < current then .error .protocol else .ok new

inductive Role where
  | publish | play
  deriving DecidableEq, Repr

def Role.other : Role → Role
  | .publish => .play
  | .play => .publish

/-- The publish field and the play field of a pair that the source declares side by side. -/
structure PerRole (α : Type) where
  publish : α
  play : α

namespace PerRole

variable {α : Type}

def get (p : PerRole α) : Role → α
  | .publish => p.publish
  | .play => p.play

def set (p : PerRole α) : Role → α → PerRole α
  | .publish, a => { p with publish := a }
  | .play, a => { p with play := a }

@[simp] theorem get_set (p : PerRole α) (r : Role) (a : α) : (p.set r a).get r = a := by
  cases r <;> rfl

theorem get_set_ne (p : PerRole α) {r q : Role} (a : α) (h : q ≠ r) :
    (p.set r a).get q = p.get q := by
  cases r <;> cases q <;> first | rfl | exact absurd rfl h

end PerRole

structure Stream where
  streamId : UInt32
  isPublishing : Bool := false
  isPlaying : Bool := false
  name : String := ""
  paused : Bool := false
  receiveAudio : Bool := true
  receiveVideo : Bool := true
  deriving DecidableEq, Repr

structure RelayFrame where
  frameType : FrameType
  timestamp : UInt32
  payload : List UInt8
  cachePayload : Option (List UInt8)
  app : String
  streamName : String
  publisherConnId : Nat
  deriving DecidableEq, Repr

def RelayFrame.retainedBytes (f : RelayFrame) : Nat :=
  satAdd (satAdd (satAdd f.payload.length ((f.cachePayload.map List.length).getD 0))
    f.app.utf8ByteSize) f.streamName.utf8ByteSize

structure PendingAuth where
  streamName : String
  requestedAt : Nat
  requestId : Nat
  deriving DecidableEq, Repr

inductive AuthorizationResult where
  | allow
  | deny
  | pending (requestId : Nat)
  deriving DecidableEq, Repr

structure RelayCongestion where
  minBacklog : Nat
  lastProgress : Nat
  deriving DecidableEq, Repr

structure Transport where
  isTls : Bool
  deriving DecidableEq, Repr

abbrev RouteKey := String × String

instance : LawfulBEq RouteKey := inferInstance

def maxPendingRelayBytes : Nat := 8 * 1024 * 1024
def maxPendingRelayFrames : Nat := 1024
def maxStreamsPerConn : Nat := 16
def maxPendingCacheEvictions : Nat := 64
def maxTracksPerRecv : Nat := 65536

/-- One connection. Instants and durations are in milliseconds. -/
structure Conn where
  connId : Nat := 0
  state : ConnState := .tcpAccepted
  app : String := ""
  relayKey : String := ""
  transport : Option Transport := none
  clientFd : Option Nat := none
  sendBuffer : Buffer := .new
  chunkSize : Nat := defaultChunkSize
  activeChunkSize : Nat := defaultChunkSize
  maxMsgLength : UInt32 := defaultMaxMsgLength
  mediaOutHeaders : MediaHeaderTracker := {}
  compactMediaHeaders : Bool := true
  stagedMediaBytes : Nat := 0
  nextStreamId : UInt32 := 0
  activeStreamCount : Nat := 0
  currentStream : Option Stream := none
  pendingRelay : List RelayFrame := []
  relayEnabled : Bool := false
  deferMediaRelay : Bool := false
  maxPendingRelayBytes : Nat := LibRtmp.maxPendingRelayBytes
  needsInitFrames : Bool := false
  lastInitReplayRequest : Option Nat := none
  initReplayDeferred : Bool := false
  relayCongestion : Option RelayCongestion := none
  relayFramesDropped : Nat := 0
  mediaBytesReceived : Nat := 0
  mediaBytesSent : Nat := 0
  injectedMediaBytes : Nat := 0
  injectedMediaBytesTotal : Nat := 0
  mediaBytesAtEpochStart : Nat := 0
  injectedBytesAtEpochStart : Nat := 0
  teardownGraceMediaBytesReceived : Nat := 0
  teardownGraceInjectedBytes : Nat := 0
  pauseGraceMediaBytesSent : Nat := 0
  publishMediaDeadlineRoute : Option String := none
  sessionSetupStarted : Nat := 0
  pendingAuth : PerRole (Option PendingAuth) := ⟨none, none⟩
  resolvedAuthIds : PerRole (List Nat) := ⟨[], []⟩
  authSealed : PerRole Bool := ⟨false, false⟩
  publishRoutes : Bool := false
  claimedPublishRoute : Option String := none
  pendingCacheEvictions : List RouteKey := []
  abandonedRelayRoutes : List RouteKey := []
  recvTrackBudget : Nat := maxTracksPerRecv
  inboundPingResponses : Nat := 0
  inboundPingWindowStart : Option Nat := none
  negotiatedCaps : Ertmp.NegotiatedCaps := {}
  connectObjectEncoding : UInt64 := 0
  bufferLengthMs : UInt32 := 3000

namespace Conn

def transition (c : Conn) (new : ConnState) : Conn :=
  match connTransition c.state new with
  | .ok st => { c with state := st }
  | .error _ => c

def relayRouteKey (c : Conn) : String :=
  if c.relayKey ≠ "" then c.relayKey else (c.currentStream.map Stream.name).getD ""

def acceptsMultitrack (c : Conn) : Bool :=
  !c.negotiatedCaps.hasCapsEx || c.negotiatedCaps.multitrackEnabled

def pendingRelayBytes (c : Conn) : Nat := (c.pendingRelay.map RelayFrame.retainedBytes).sum

def isPublishing (c : Conn) : Bool := (c.currentStream.map Stream.isPublishing).getD false

def isPlaying (c : Conn) : Bool := (c.currentStream.map Stream.isPlaying).getD false

/-- While a rename is being decided the old authorization does not count. -/
def isPublisherStream (c : Conn) (msgStreamId : UInt32) : Bool :=
  c.pendingAuth.publish.isNone &&
    c.currentStream.any (fun s => s.isPublishing && s.streamId == msgStreamId)

def isActivePublisherStream (c : Conn) (msgStreamId : UInt32) : Bool :=
  c.relayEnabled && c.isPublisherStream msgStreamId

def publishingMetadataAllowed (c : Conn) (msgStreamId : UInt32) : Bool :=
  let expectedStreamId := ((c.currentStream.filter Stream.isPublishing).map Stream.streamId).getD 0
  msgStreamId == expectedStreamId && expectedStreamId != 0

def disconnectTransport (c : Conn) : Conn := { c with transport := none, clientFd := none }

end Conn

end LibRtmp
