import LibRtmp.Session.Command

namespace LibRtmp

open Actions

def Conn.maxFrameLength (c : Conn) : Nat := min c.maxMsgLength.toNat rtmpWireMaxMsgLength

def Conn.relayFrame (c : Conn) (frameType : FrameType) (timestamp : UInt32) (payload : List UInt8)
    (cachePayload : Option (List UInt8)) : RelayFrame where
  frameType
  timestamp
  payload
  cachePayload
  app := c.app
  streamName := c.relayRouteKey
  publisherConnId := c.connId

def queueRelayFrame (frameType : FrameType) (timestamp : UInt32) (payload : List UInt8)
    (cachePayload : Option (List UInt8)) : ConnM Unit := do
  let s ← get
  let c := s.conn
  let frame := c.relayFrame frameType timestamp payload cachePayload
  if payload.length > c.maxFrameLength then throw .internal
  else if c.pendingRelay.length ≥ maxPendingRelayFrames ∨
      satAdd c.pendingRelayBytes frame.retainedBytes > c.maxPendingRelayBytes then
    throw .internal
  else
    modifyConn (fun c => { c with
      abandonedRelayRoutes :=
        c.abandonedRelayRoutes.filter (fun r => r ≠ (frame.app, frame.streamName))
      pendingRelay := c.pendingRelay ++ [frame] })

def Host.mediaAllowed (h : Host) (c : Conn) (frameType : FrameType) (codec : Option String) :
    Bool :=
  match h.onMedia with
  | none => true
  | some cb =>
    if (frameType = .video ∨ frameType = .audio) ∧ codec = none then false
    else cb c.connId frameType codec

/-- Relay `onMetaData` of the active publish stream; other script data stays here. -/
def handlePublisherDataMessage (h : Host) (msgStreamId timestamp : UInt32)
    (payload : List UInt8) : ConnM Unit := do
  let s ← get
  let c := s.conn
  if ¬ c.publishingMetadataAllowed msgStreamId then pure ()
  else
    let relayMetadata := h.media.isOnMetadata payload && c.relayEnabled &&
      c.pendingAuth.publish.isNone && c.isPublishing
    if relayMetadata then
      if h.mediaAllowed c .script none then queueRelayFrame .script timestamp payload none
      else throw .auth
    else pure ()

def handleMediaFrame (h : Host) (msgStreamId : UInt32) (frameType : FrameType)
    (timestamp : UInt32) (payload : List UInt8) : ConnM Unit := do
  let s ← get
  if ¬ s.conn.isActivePublisherStream msgStreamId then
    -- A publisher whose relay is still held back counts as alive.
    if s.conn.isPublisherStream msgStreamId then
      modifyConn (fun c => { c with
        mediaBytesReceived := satAdd c.mediaBytesReceived payload.length })
    else pure ()
  else
    let normalized := h.media.normalize frameType payload
    let parsePayload := normalized.getD payload
    match h.media.authorize frameType parsePayload with
    | .error e => throw e
    | .ok trackWork => do
      modifyConn (fun c => { c with
        recvTrackBudget := c.recvTrackBudget - trackWork
        mediaBytesReceived := satAdd c.mediaBytesReceived payload.length })
      match h.media.dispatch frameType parsePayload with
      | .error e => throw e
      | .ok dispatched => do
        modifyConn (fun c => { c with
          recvTrackBudget := c.recvTrackBudget - (dispatched - trackWork) })
        queueRelayFrame frameType timestamp payload normalized

def rtmpMsgAudio : UInt8 := 0x08
def rtmpMsgVideo : UInt8 := 0x09

def maxAggregateSubtags : Nat := 4096

def handleSubTag (h : Host) (msgStreamId : UInt32) (tagType : UInt8) (timestamp : UInt32)
    (payload : List UInt8) : ConnM Unit :=
  if tagType = rtmpMsgAudio then handleMediaFrame h msgStreamId .audio timestamp payload
  else if tagType = rtmpMsgVideo then handleMediaFrame h msgStreamId .video timestamp payload
  else if tagType = rtmpMsgAmf0Data then handlePublisherDataMessage h msgStreamId timestamp payload
  else pure ()

def subTagTimestamp (tag : List UInt8) : UInt32 :=
  UInt32.ofNat (field24 tag 4 + (tag.getD 7 0).toNat * 2 ^ 24)

/-- Unpack at most `subtags` more sub-tags; `base` is the timestamp of the first one. -/
def handleAggregateFrom (h : Host) (msgStreamId baseTimestamp : UInt32) :
    Nat → Option UInt32 → List UInt8 → Nat → ConnM Nat
  | 0, _, tags, budget => if tags.length < 11 then pure budget else throw .protocol
  | subtags + 1, base, tags, budget =>
    if tags.length < 11 then pure budget
    else
      let dataSize := field24 tags 1
      let ts := subTagTimestamp tags
      if 11 + dataSize > tags.length then throw .protocol
      else if dataSize = 0 then throw .protocol
      else do
        let s ← get
        if budget = 0 ∨ s.conn.recvTrackBudget = 0 then pure budget
        else do
          let outTs := baseTimestamp + (ts - base.getD ts)
          handleSubTag h msgStreamId (tags.getD 0 0) outTs ((tags.drop 11).take dataSize)
          handleAggregateFrom h msgStreamId baseTimestamp subtags (some (base.getD ts))
            (tags.drop (11 + dataSize + 4)) (budget - 1)

def handleAggregate (h : Host) (msgStreamId baseTimestamp : UInt32) (payload : List UInt8)
    (budget : Nat) : ConnM Nat :=
  handleAggregateFrom h msgStreamId baseTimestamp maxAggregateSubtags none payload budget

inductive UserControl where
  | pingRequest (timestamp : UInt32)
  | setBufferLength (ms : UInt32)
  | malformed (e : ErrorCode)
  | other

def inboundPingWindow : Nat := 1000
def maxInboundPingResponses : Nat := 8

def Conn.rollPingWindow (c : Conn) (now : Nat) : Conn :=
  match c.inboundPingWindowStart with
  | none => { c with inboundPingWindowStart := some now }
  | some start =>
    if now - start ≥ inboundPingWindow then
      { c with inboundPingWindowStart := some now, inboundPingResponses := 0 }
    else c

def handleUserControl (h : Host) : UserControl → ConnM Unit
  | .pingRequest timestamp => do
    modifyConn (fun c => c.rollPingWindow h.now)
    let s ← get
    if s.conn.inboundPingResponses ≥ maxInboundPingResponses then throw .protocol
    else do
      modifyConn (fun c => { c with inboundPingResponses := c.inboundPingResponses + 1 })
      sendUserControl uctrlPingResponse [timestamp]
  | .setBufferLength ms => modifyConn (fun c => { c with bufferLengthMs := ms })
  | .malformed e => throw e
  | .other => pure ()

/-- A complete message of the peer; protocol control is given by its result. -/
inductive PeerMessage where
  | command (command : Command)
  | media (frameType : FrameType) (msgStreamId timestamp : UInt32) (payload : List UInt8)
  | data (msgStreamId timestamp : UInt32) (payload : List UInt8)
  | aggregate (msgStreamId timestamp : UInt32) (payload : List UInt8)
  | userControl (event : UserControl)
  | control (result : Except ErrorCode Unit)
  | other

def handleSingle (h : Host) : PeerMessage → ConnM Unit
  | .command command => handleCommand h command
  | .media frameType msgStreamId timestamp payload =>
    handleMediaFrame h msgStreamId frameType timestamp payload
  | .data msgStreamId timestamp payload =>
    handlePublisherDataMessage h msgStreamId timestamp payload
  | .userControl event => handleUserControl h event
  | .control (.error e) => throw e
  | .control (.ok _) => pure ()
  | .aggregate _ _ _ => pure ()
  | .other => pure ()

def handleMessage (h : Host) (m : PeerMessage) (budget : Nat) : ConnM Nat :=
  match m with
  | .aggregate msgStreamId timestamp payload =>
    handleAggregate h msgStreamId timestamp payload budget
  | m =>
    if budget = 0 then pure 0
    else do
      handleSingle h m
      pure (budget - 1)

def Session.undoInjectClaim (previous : Option String) (evictions : Nat) (s : Session) : Session :=
  let s := s.releaseClaimedPublishRoute
  let c := { s.conn with pendingCacheEvictions := s.conn.pendingCacheEvictions.take evictions }
  match previous with
  | none => { s with conn := c }
  | some prev =>
    { conn := { c with claimedPublishRoute := some prev, relayKey := prev }
      routes :=
        if c.publishRoutes then (s.routes.claim c.connId c.app prev).2 else s.routes }

def injectRelayFrame (h : Host) (frameType : FrameType) (timestamp : UInt32)
    (payload : List UInt8) : ConnM Unit := do
  let s ← get
  let c := s.conn
  let name := c.relayRouteKey
  if payload.length > c.maxFrameLength then throw .internal
  else if c.isPlaying ∧ ¬ c.isPublishing then throw .internal
  else if c.app = "" ∨ name = "" then throw .internal
  else if c.app.utf8ByteSize > 1024 ∨ name.utf8ByteSize > 1024 then throw .internal
  else
    match ← modifyGet (Session.claimPublishRoute name) with
    | .claimed =>
      match ← attempt (queueRelayFrame frameType timestamp payload
          (h.media.normalize frameType payload)) with
      | .error e => do
        if c.claimedPublishRoute ≠ some name then
          modify (fun s =>
            s.undoInjectClaim c.claimedPublishRoute c.pendingCacheEvictions.length)
        throw e
      | .ok _ =>
        modifyConn (fun c => { c with
          injectedMediaBytes := satAdd c.injectedMediaBytes (max payload.length 1)
          injectedMediaBytesTotal := satAdd c.injectedMediaBytesTotal (max payload.length 1) })
    | _ => do
      -- Point the key back at the route still held.
      modifyConn (fun c => { c with relayKey := c.claimedPublishRoute.getD c.relayKey })
      throw .internal

end LibRtmp
