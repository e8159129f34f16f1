import LibRtmp.Server.Cache
import LibRtmp.Server.Staged

namespace LibRtmp

structure PlayerFlowLimits where
  soft : Nat
  hard : Nat
  congestionTimeout : Nat

inductive PlayerFlow where
  | send | skip | disconnect
  deriving DecidableEq, Repr

structure FrameDelivery where
  delivery : DeliveryHint
  audioWaitsForVideo : Bool
  routeVideoMultitrack : Option Bool

def FrameDelivery.always : FrameDelivery := ⟨.critical, false, none⟩

inductive PlayerOutcome where
  | skipped | delivered | deliveryFailed | dropped
  deriving DecidableEq, Repr

def Conn.receivesRouteVideo (c : Conn) (multitrack : Option Bool) : Bool :=
  c.currentStream.any Stream.receiveVideo && (!multitrack.getD false || c.acceptsMultitrack)

def FrameDelivery.forPlayer (d : FrameDelivery) (c : Conn) : DeliveryHint :=
  if d.audioWaitsForVideo && !c.receivesRouteVideo d.routeVideoMultitrack then .resyncPoint
  else d.delivery

def Codec.cachedPayloadIsMultitrack (codec : Codec) (frameType : FrameType)
    (payload : List UInt8) : Bool :=
  codec.isMultitrackContainer frameType ((codec.normalize frameType payload).getD payload)

def routeVideo (codec : Codec) (t : CacheTable) (route : RouteKey) : Option Bool :=
  (t.streamCache.lookup route).bind (fun cache =>
    if cache.video.isEmpty && cache.lastKeyframe.isNone then none
    else some (!cache.video.trackHeaders.entries.isEmpty ||
      cache.video.header.any (codec.cachedPayloadIsMultitrack .video) ||
      cache.lastKeyframe.any (fun k => codec.cachedPayloadIsMultitrack .video k.2)))

def frameDelivery (codec : Codec) (t : CacheTable) (frame : RelayFrame) : FrameDelivery :=
  let video := routeVideo codec t frame.route
  let delivery := codec.deliveryHint frame.frameType frame.cachedPayload video.isSome
  { delivery
    audioWaitsForVideo := delivery == .droppable && frame.frameType == .audio
    routeVideoMultitrack := video }

def connWillReceiveRelayFrame (codec : Codec) (c : Conn) (frame : RelayFrame) : Bool :=
  match c.currentStream with
  | none => false
  | some stream =>
    c.relayEnabled && c.transport.isSome && c.app == frame.app && stream.isPlaying &&
      c.relayRouteKey == frame.streamName && !stream.paused && c.pendingAuth.play.isNone &&
      !(frame.frameType == .audio && !stream.receiveAudio) &&
      !(frame.frameType == .video && !stream.receiveVideo) &&
      !((frame.frameType == .script || frame.frameType == .metadata) && !stream.receiveAudio &&
        !stream.receiveVideo) &&
      !((frame.frameType == .audio || frame.frameType == .video) &&
        codec.isMultitrackContainer frame.frameType frame.cachedPayload && !c.acceptsMultitrack)

def playerFlowDecision (limits : PlayerFlowLimits) (c : Conn) (delivery : DeliveryHint)
    (backlog now : Nat) : PlayerFlow × Conn :=
  if backlog ≥ limits.hard then (.disconnect, c)
  else if limits.soft = 0 ∨ delivery = .critical then (.send, c)
  else
    match c.relayCongestion with
    | none =>
      if backlog ≤ limits.soft then (.send, c)
      else (.skip, { c with relayCongestion := some ⟨backlog, now⟩ })
    | some congestion =>
      if delivery = .resyncPoint ∧ backlog ≤ limits.soft / 2 then
        (.send, { c with relayCongestion := none })
      else if backlog < congestion.minBacklog ∨ backlog = 0 then
        (.skip, { c with relayCongestion := some ⟨backlog, now⟩ })
      else if now - congestion.lastProgress ≥ limits.congestionTimeout then (.disconnect, c)
      else (.skip, c)

def stopRelayPlayer (c : Conn) : Conn :=
  { c with relayEnabled := false, needsInitFrames := false }.disconnectTransport

/-- Queue the frame for one player, staged if the player can take it straight from the arena. -/
def deliverFrame (connIndex : Nat) (c : Conn) (frameIndex : Nat) (frame : RelayFrame)
    (staged : StagedRelayMedia) : Except ErrorCode Unit × Conn × StagedRelayMedia :=
  match staged.bodyFor frameIndex frame c.mediaChunkSize with
  | (none, staged) => (.error .internal, c, staged)
  | (some body, staged) =>
    let bytes := ((staged.bodies[body]?).map (fun b => b.bytes.peek)).getD []
    if c.canStageMedia then
      match c.stageEncodedMediaBody frame.frameType frame.timestamp frame.payload.length
          bytes.length staged.headers with
      | (.error e, c, headers) => (.error e, c, { staged with headers })
      | (.ok headerLen, c, headers) => (.ok (), c, staged.stage connIndex body headerLen headers)
    else
      let (result, c) :=
        c.sendEncodedMediaBody frame.frameType frame.timestamp frame.payload.length bytes
      (result, c, staged)

def relayFrameToPlayer (limits : PlayerFlowLimits) (now : Nat) (delivery : FrameDelivery)
    (connIndex : Nat) (c : Conn) (frameIndex : Nat) (frame : RelayFrame)
    (staged : StagedRelayMedia) : PlayerOutcome × Conn × StagedRelayMedia :=
  let backlog := c.sendBuffer.available + c.stagedMediaBytes
  match playerFlowDecision limits c (delivery.forPlayer c) backlog now with
  | (.skip, c) =>
    (.skipped, { c with relayFramesDropped := satAdd c.relayFramesDropped 1 }, staged)
  | (.disconnect, c) => (.dropped, stopRelayPlayer c, staged)
  | (.send, c) =>
    match deliverFrame connIndex c frameIndex frame staged with
    | (.error _, c, staged) => (.deliveryFailed, stopRelayPlayer c, staged)
    | (.ok _, c, staged) => (.delivered, c, staged)

/-- What a fan-out has done so far. `reports` has what `relayFrameToPlayer` answered. -/
structure Fanout where
  connections : List Conn
  staged : StagedRelayMedia := {}
  closed : List Nat := []
  reports : List (Nat × RelayFrame × PlayerOutcome) := []

def Fanout.offer (limits : PlayerFlowLimits) (now : Nat) (delivery : FrameDelivery)
    (frameIndex : Nat) (frame : RelayFrame) (f : Fanout) (i : Nat) : Fanout :=
  match f.connections[i]? with
  | none => f
  | some c =>
    let (outcome, c, staged) :=
      relayFrameToPlayer limits now delivery i c frameIndex frame f.staged
    { connections := f.connections.set i c
      staged
      closed :=
        if outcome = .deliveryFailed ∨ outcome = .dropped then f.closed ++ [i] else f.closed
      reports := f.reports ++ [(i, frame, outcome)] }

def relayPlayers (codec : Codec) (connections : List Conn) (frame : RelayFrame) : List Nat :=
  (List.range connections.length).filter (fun i =>
    connections[i]?.any (fun c => connWillReceiveRelayFrame codec c frame))

def Fanout.frame (limits : PlayerFlowLimits) (now : Nat) (delivery : FrameDelivery)
    (frameIndex : Nat) (frame : RelayFrame) (players : List Nat) (f : Fanout) : Fanout :=
  let f := players.foldl (Fanout.offer limits now delivery frameIndex frame) f
  { f with staged := f.staged.releaseUnstagedBodies }

def StagedRelayMedia.sendTo (m : StagedRelayMedia) (sockets : Nat → Socket)
    (s : List Conn × List Nat × List (Nat × List UInt8)) (i : Nat) :
    List Conn × List Nat × List (Nat × List UInt8) :=
  match s with
  | (connections, closed, taken) =>
    match connections[i]? with
    | none => (connections, closed, taken)
    | some c =>
      if c.transport.isNone then (connections, closed, taken)
      else
        match c.sendStagedMedia (sockets i) (m.parts i) with
        | (.ok _, c, bytes) => (connections.set i c, closed, taken ++ [(i, bytes)])
        | (.error _, c, bytes) =>
          (connections.set i (stopRelayPlayer c), closed ++ [i], taken ++ [(i, bytes)])

def StagedRelayMedia.send (m : StagedRelayMedia) (sockets : Nat → Socket) (connections : List Conn)
    (closed : List Nat) : List Conn × List Nat × List (Nat × List UInt8) :=
  m.messages.owners.foldl (m.sendTo sockets) (connections, closed, [])

end LibRtmp
