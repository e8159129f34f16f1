import LibRtmp.Server.State

namespace LibRtmp

open Actions

/-- What a connection meets in a pass: the time, its messages, and what its socket answers. -/
structure ConnInput where
  now : Nat := 0
  reapSocket : Socket := []
  events : List Inbound := []
  hangsUp : Bool := false
  replaySocket : Socket := []
  stagedSocket : Socket := []
  ping : Except ErrorCode (Option UInt32) := .ok none
  flushSocket : Socket := []

structure PassInput where
  now : Nat := 0
  conns : Nat → ConnInput := fun _ => {}
  relaySends : Nat := 0

/-- A pass under way: the server, who closed, whether an eviction was queued, what was seen. -/
structure Pass where
  server : Server
  closed : List Nat := []
  evictionsQueued : Bool := false
  trace : List ServerEvent := []

abbrev Abandoned := RouteKey × Nat

namespace StreamCache

def replayHeaders (codec : Codec) (c : Conn) (frameType : FrameType) (s : HeaderSlots) :
    List InitFrame :=
  (s.header.toList.filter (fun h =>
      !codec.cachedPayloadIsMultitrack frameType h || c.acceptsMultitrack)).map
    (fun h => (frameType, 0, h)) ++
  (if c.acceptsMultitrack then s.trackHeaders.entries.map (fun e => (frameType, 0, e.2)) else [])

def replayKeyframe (codec : Codec) (c : Conn) (cache : StreamCache) : List InitFrame :=
  (cache.lastKeyframe.toList.filter (fun k =>
    !codec.cachedPayloadIsMultitrack .video k.2 || c.acceptsMultitrack)).map
    (fun k => (.video, k.1, k.2))

end StreamCache

namespace Conn

def sendAll (c : Conn) : List InitFrame → Bool × Conn × List InitFrame
  | [] => (false, c, [])
  | (frameType, timestamp, payload) :: frames =>
    match c.sendFrame frameType timestamp payload with
    | (.error _, c) =>
      let (_, c, sent) := c.sendAll frames
      (true, c, sent)
    | (.ok _, c) =>
      let (failed, c, sent) := c.sendAll frames
      (failed, c, (frameType, timestamp, payload) :: sent)

def sendPhases (c : Conn) : List (List InitFrame) → Bool × Conn × List InitFrame
  | [] => (false, c, [])
  | frames :: phases =>
    match c.sendAll frames with
    | (true, c, sent) => (true, c, sent)
    | (false, c, sent) =>
      let (failed, c, more) := c.sendPhases phases
      (failed, c, sent ++ more)

def replayCachedHeaders (codec : Codec) (c : Conn) (cache : StreamCache) (stream : Stream) :
    Bool × Conn × List InitFrame :=
  let metadata : List InitFrame :=
    if stream.receiveAudio || stream.receiveVideo then
      cache.metadata.toList.map (fun md => (.script, 0, md))
    else []
  let video :=
    if stream.receiveVideo then StreamCache.replayHeaders codec c .video cache.video else []
  let audio :=
    if stream.receiveAudio then StreamCache.replayHeaders codec c .audio cache.audio else []
  let keyframe := if stream.receiveVideo then cache.replayKeyframe codec c else []
  -- The video headers go out even when the metadata did not.
  c.sendPhases [metadata ++ video, audio, keyframe]

def awaitsReplay (c : Conn) : Bool :=
  c.transport.isSome && c.needsInitFrames && c.isPlaying && c.relayEnabled &&
    c.pendingAuth.play.isNone

def replayInitFrames (codec : Codec) (t : CacheTable) (c : Conn) : Bool × Conn × List InitFrame :=
  match c.currentStream with
  | none => (false, c, [])
  | some stream =>
    if ¬ c.awaitsReplay then (false, c, [])
    else
      let c := { c with needsInitFrames := false }
      match t.streamCache.lookup (c.app, c.relayRouteKey) with
      | none => (false, c, [])
      | some cache =>
        match c.replayCachedHeaders codec cache stream with
        | (true, c, sent) => (true, stopRelayPlayer c, sent)
        | (false, c, sent) => (false, c, sent)

def replayed (c : Conn) (frames : List InitFrame) : List ServerEvent :=
  frames.map (fun f => .replayed c.connId f)

end Conn

namespace Pass

def reapOne (codec : Codec) (input : PassInput) (p : Pass) (i : Nat) : Pass :=
  match p.server.connections[i]? with
  | none => p
  | some c =>
    let conn := input.conns c.connId
    match Session.perform codec (.reap conn.now p.server.settings.pendingAuthTimeout)
        ⟨c, p.server.activePublishRoutes⟩ with
    | (r, t, trace) =>
      let c := (t.conn.flush conn.reapSocket).2
      match r with
      | .ok true =>
        { p with
          server := p.server.put i { t with conn := c.disconnectTransport }
          closed := p.closed ++ [i]
          trace := p.trace ++ trace }
      | _ => { p with server := p.server.put i { t with conn := c }, trace := p.trace ++ trace }

def reapTimedOutPendingAuth (codec : Codec) (input : PassInput) (p : Pass) : Pass :=
  (List.range p.server.connections.length).foldl (reapOne codec input) p

end Pass

namespace Server

def drainOne (d : List Abandoned × Server) (i : Nat) : List Abandoned × Server :=
  match d.2.connections[i]? with
  | none => d
  | some c =>
    let keys := c.pendingCacheEvictions ++ c.abandonedRelayRoutes
    (d.1 ++ keys.map (fun k => (k, c.connId)),
      { d.2 with
        connections := d.2.connections.set i
          (keys.foldl Conn.noteAbandonedRelayRoute { c with pendingCacheEvictions := [] })
        cache := keys.foldl (fun t k => t.releaseKey c.connId k) d.2.cache })

def drainPendingCacheEvictions (s : Server) : List Abandoned × Server :=
  (List.range s.connections.length).foldl drainOne ([], s)

end Server

def abandonments (keys : List Abandoned) : List ServerEvent :=
  keys.map (fun k => .abandoned k.2 k.1)

namespace Pass

def drain (p : Pass) : List Abandoned × Pass :=
  match p.server.drainPendingCacheEvictions with
  | (keys, s) => (keys, { p with server := s, trace := p.trace ++ abandonments keys })

def receiveOne (codec : Codec) (input : ConnInput) (s : Session) :
    Bool × Session × List ServerEvent :=
  if s.conn.sessionSetupTimedOut input.now then
    (true, { s with conn := s.conn.disconnectTransport }, [])
  else if s.conn.transport.isNone then (true, s, [])
  else
    match s.receive codec input.events with
    | (failed, s, trace) => (failed || input.hangsUp, s, trace)

/-- Send a new player its init frames with the answer to its play. Returns whether it closes. -/
def replayAtOnce (codec : Codec) (cache : CacheTable) (socket : Socket) (c : Conn) :
    Bool × Conn × List InitFrame :=
  match c.replayInitFrames codec cache with
  | (true, c, sent) => (true, c, sent)
  | (false, c, sent) =>
    if c.needsInitFrames then (false, c, sent)
    else
      match c.flush socket with
      | (.error _, c) => (true, c, sent)
      | (.ok _, c) => (false, c, sent)

def recvAndReapOne (codec : Codec) (input : PassInput) (p : Pass) (i : Nat) : Pass :=
  match p.server.connections[i]? with
  | none => p
  | some c =>
    let conn := input.conns c.connId
    match receiveOne codec conn ⟨c, p.server.activePublishRoutes⟩ with
    | (closes, t, trace) =>
      let evictionsQueued := p.evictionsQueued || !t.conn.pendingCacheEvictions.isEmpty
      let c := t.conn.rearmDeferredInitReplay conn.now
      let (fails, c, sent) :=
        if !closes && !evictionsQueued && c.needsInitFrames then
          replayAtOnce codec p.server.cache conn.replaySocket c
        else (false, c, [])
      { server := p.server.put i
          { conn := c
            -- The routes of a closed connection are free for the ones after it.
            routes := if closes || fails then t.routes.releaseAll c.connId else t.routes }
        closed := if closes || fails then p.closed ++ [i] else p.closed
        evictionsQueued
        trace := p.trace ++ trace ++ c.replayed sent }

def recvAndReapConnections (codec : Codec) (input : PassInput) (p : Pass) : Pass :=
  (List.range p.server.connections.length).foldl (recvAndReapOne codec input) p

def detachOne (codec : Codec) (closedIds : List Nat) (p : Pass) (i : Nat) : Pass :=
  match p.server.connections[i]? with
  | none => p
  | some c =>
    if c.connId ∈ closedIds ∨ ¬ c.publishRoutes ∨
        c.claimedPublishRoute.all (fun claimed =>
          p.server.activePublishRoutes.lookup (c.app, claimed) == some c.connId) then p
    else
      match Session.perform codec .detach ⟨c, p.server.activePublishRoutes⟩ with
      | (_, t, trace) => { p with server := p.server.put i t, trace := p.trace ++ trace }

def detachDisplacedRouteOwners (codec : Codec) (p : Pass) : Pass :=
  let closedIds := p.closed.filterMap (fun i => p.server.connections[i]?.map Conn.connId)
  (List.range p.server.connections.length).foldl (detachOne codec closedIds) p

end Pass

namespace Server

/-- Drop what a deferring publisher had queued under routes it abandoned. -/
def dropStalePendingRelay (abandoned : List Abandoned) (s : Server) : Server :=
  { s with
    connections := s.connections.map (fun c =>
      if c.deferMediaRelay ∧ ¬ c.relayEnabled then
        { c with
          pendingRelay := c.pendingRelay.filter (fun f => (f.route, c.connId) ∉ abandoned) }
      else c) }

def relays (c : Conn) : Bool :=
  !c.deferMediaRelay || c.relayEnabled || decide (c.injectedMediaBytes > 0) ||
    !c.pendingRelay.isEmpty

def buildRelayFrameBatch (s : Server) : List RelayFrame × Server :=
  let queues := ((s.connections.filter relays).map Conn.pendingRelay).filter (fun q => !q.isEmpty)
  let start := if queues.isEmpty then 0 else s.relayLocalRrOffset % queues.length
  let frames := mergeLocalAndInjectedByRoute
    (s.orphanedRelay ++ roundRobinRelayQueues queues start) s.pendingInjectedRelay
    s.relayInterleaveInjectFirst
  (frames, { s with
    connections := s.connections.map (fun c => if relays c then { c with pendingRelay := [] } else c)
    orphanedRelay := []
    pendingInjectedRelay := []
    relayLocalRrOffset :=
      if queues.isEmpty then s.relayLocalRrOffset else (s.relayLocalRrOffset + 1) % 2 ^ 64
    relayInterleaveInjectFirst := !s.relayInterleaveInjectFirst })

def orphansWithRoomFor (bytes maxBytes : Nat) : List RelayFrame → List RelayFrame
  | [] => []
  | f :: fs =>
    if (f :: fs).length ≥ maxPendingRelayFrames ∨
        satAdd ((f :: fs).map RelayFrame.retainedBytes).sum bytes > maxBytes then
      orphansWithRoomFor bytes maxBytes fs
    else f :: fs

/-- Keep a frame whose publisher is gone, within the backlog bounds. -/
def pushOrphanedRelay (s : Server) (frame : RelayFrame) : Server :=
  if frame.retainedBytes > s.settings.maxPendingRelayBytes then s
  else
    { s with
      orphanedRelay := orphansWithRoomFor frame.retainedBytes s.settings.maxPendingRelayBytes
        s.orphanedRelay ++ [frame] }

def requeueRelayFrame (s : Server) (frame : RelayFrame) : Server :=
  if isExternalPublisherId frame.publisherConnId then
    { s with pendingInjectedRelay := s.pendingInjectedRelay ++ [frame] }
  else
    match s.indexOf frame.publisherConnId with
    | some i =>
      { s with
        connections := s.connections.modify i (fun c =>
          { c with pendingRelay := c.pendingRelay ++ [frame] }) }
    | none => s.pushOrphanedRelay frame

/-- Whether a frame may still be cached: its publisher is there and has not abandoned it. -/
def cacheable (abandoned : List Abandoned) (connections : List Conn) (frame : RelayFrame) : Bool :=
  !abandoned.contains (frame.route, frame.publisherConnId) &&
    match connections.find? (fun c => c.connId == frame.publisherConnId) with
    | some c => !c.relayRouteAbandoned frame.route
    | none => isExternalPublisherId frame.publisherConnId

def cacheRelayFrameUnlessOrphaned (cfg : CacheConfig) (abandoned : List Abandoned)
    (connections : List Conn) (t : CacheTable) (frame : RelayFrame) : CacheTable :=
  if cacheable abandoned connections frame then cacheRelayFrame cfg t frame else t

end Server

structure Relaying where
  fanout : Fanout
  cache : CacheTable
  relaySends : Nat
  frameIndex : Nat := 0
  trace : List ServerEvent := []

namespace Relaying

def deliveries (connections : List Conn) (reports : List (Nat × RelayFrame × PlayerOutcome)) :
    List ServerEvent :=
  reports.filterMap (fun report =>
    if report.2.2 = .delivered then
      connections[report.1]?.map (fun c => .delivered c.connId report.2.1)
    else none)

def handle (cfg : CacheConfig) (settings : ServerSettings) (now : Nat) (abandoned : List Abandoned)
    (frame : RelayFrame) (players : List Nat) (r : Relaying) : Relaying :=
  let cache := Server.cacheRelayFrameUnlessOrphaned cfg abandoned r.fanout.connections r.cache frame
  let delivery :=
    if players.isEmpty ∨ settings.limits.soft = 0 then FrameDelivery.always
    else frameDelivery cfg.codec cache frame
  let fanout := r.fanout.frame settings.limits now delivery r.frameIndex frame players
  let reports := fanout.reports.drop r.fanout.reports.length
  let sends := reports.filter
    (fun report => report.2.2 = .delivered ∨ report.2.2 = .deliveryFailed)
  { fanout
    cache
    relaySends := r.relaySends + sends.length
    frameIndex := r.frameIndex + 1
    trace := r.trace ++ .handled frame r.cache cache :: deliveries fanout.connections reports }

/-- Handle frames until the send budget of the pass is used up. Returns the frames left. -/
def run (cfg : CacheConfig) (settings : ServerSettings) (now : Nat) (abandoned : List Abandoned) :
    List RelayFrame → Relaying → Relaying × List RelayFrame
  | [], r => (r, [])
  | frame :: frames, r =>
    let players := relayPlayers cfg.codec r.fanout.connections frame
    if players ≠ [] ∧ r.relaySends > 0 ∧
        satAdd r.relaySends players.length > settings.maxRelaySendsPerPoll then
      (r, frame :: frames)
    else run cfg settings now abandoned frames (r.handle cfg settings now abandoned frame players)

end Relaying

namespace Pass

def replayOne (codec : Codec) (p : Pass) (i : Nat) : Pass :=
  match p.server.connections[i]? with
  | none => p
  | some c =>
    match c.replayInitFrames codec p.server.cache with
    | (failed, c, sent) =>
      { p with
        server := p.server.put i ⟨c, p.server.activePublishRoutes⟩
        closed := if failed then p.closed ++ [i] else p.closed
        trace := p.trace ++ c.replayed sent }

def replayInitFramesForNewPlayers (codec : Codec) (p : Pass) : Pass :=
  (List.range p.server.connections.length).foldl (replayOne codec) p

def sendAndExportRelayFrames (cfg : CacheConfig) (input : PassInput) (abandoned : List Abandoned)
    (frames : List RelayFrame) (p : Pass) : Pass :=
  let s := p.server
  match Relaying.run cfg s.settings input.now abandoned frames
      { fanout := { connections := s.connections, closed := p.closed }
        cache := s.cache
        relaySends := input.relaySends } with
  | (r, rest) =>
    let socketOf (i : Nat) : Socket :=
      (r.fanout.connections[i]?.map (fun c => (input.conns c.connId).stagedSocket)).getD []
    match r.fanout.staged.send socketOf r.fanout.connections r.fanout.closed with
    | (connections, closed, _) =>
      { p with
        server := rest.foldl Server.requeueRelayFrame { s with connections, cache := r.cache }
        closed
        trace := p.trace ++ r.trace }

end Pass

def uctrlPingRequest : Nat := 6

def sendPing : Option UInt32 → ConnM Unit
  | none => pure ()
  | some token => sendUserControl uctrlPingRequest [token]

/-- Send a ping that is due, then flush. Returns whether the connection closes. -/
def Conn.pingAndFlush (input : ConnInput) (c : Conn) : Bool × Conn :=
  if c.transport.isNone then (true, c)
  else
    match input.ping with
    | .error _ => (true, c)
    | .ok token =>
      match Action.on (sendPing token) ⟨c, ∅⟩ with
      | (.error _, t) => (true, t.conn)
      | (.ok _, t) =>
        match t.conn.flush input.flushSocket with
        | (.error _, c) => (true, c)
        | (.ok _, c) => (false, c)

namespace Pass

def flushOne (input : PassInput) (p : Pass) (i : Nat) : Pass :=
  match p.server.connections[i]? with
  | none => p
  | some c =>
    match c.pingAndFlush (input.conns c.connId) with
    | (closes, c) =>
      { p with
        server := p.server.put i ⟨c, p.server.activePublishRoutes⟩
        closed := if closes then p.closed ++ [i] else p.closed }

def flushConnections (input : PassInput) (p : Pass) : Pass :=
  (List.range p.server.connections.length).foldl (flushOne input) p

/-- Remove one connection: its frames stay as orphans, its routes and cache entries go. -/
def removeOne (p : Pass) (i : Nat) : Pass :=
  match p.server.connections[i]? with
  | none => p
  | some c =>
    let s := (c.pendingRelay.filter (fun f => !isExternalPublisherId f.publisherConnId)).foldl
      Server.pushOrphanedRelay p.server
    let s := s.releaseAllPublishRoutes c.connId
    { p with
      server := { s with
        cache := s.cache.forgetPublisher c.connId
        connections := s.connections.eraseIdx i }
      trace := p.trace ++ [.closed c.connId] }

def removeClosedConnections (p : Pass) : Pass :=
  (((List.range p.server.connections.length).filter (fun i => i ∈ p.closed)).reverse).foldl
    removeOne p

end Pass

namespace Pass

def reapAndReceive (cfg : CacheConfig) (input : PassInput) (s : Server) : Pass :=
  let p := reapTimedOutPendingAuth cfg.codec input { server := s }
  let p := p.drain.2
  let p := { p with
    server := p.server.reapStaleInjectRoutes input.now
    trace := p.trace ++ (p.server.staleInjectRoutes input.now).map ServerEvent.released }
  recvAndReapConnections cfg.codec input p

/-- Receive, apply evictions and detach displaced publishers; returns the routes abandoned since. -/
def receivePhase (cfg : CacheConfig) (input : PassInput) (s : Server) : List Abandoned × Pass :=
  let (abandoned, p) := (reapAndReceive cfg input s).drain
  (abandoned, detachDisplacedRouteOwners cfg.codec p)

def relayPhase (cfg : CacheConfig) (input : PassInput) (first : List Abandoned) (p : Pass) : Pass :=
  let (second, p) := p.drain
  let abandoned := first ++ second
  let (frames, s) := (p.server.dropStalePendingRelay abandoned).buildRelayFrameBatch
  let p := replayInitFramesForNewPlayers cfg.codec { p with server := s }
  let p := sendAndExportRelayFrames cfg input abandoned frames p
  flushConnections input p

end Pass

def processConnections (cfg : CacheConfig) (input : PassInput) (s : Server) : Pass :=
  (Pass.relayPhase cfg input (Pass.receivePhase cfg input s).1
    (Pass.receivePhase cfg input s).2).removeClosedConnections

end LibRtmp
