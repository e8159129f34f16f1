import LibRtmp.Server.Acts

namespace LibRtmp

structure ServerSettings where
  limits : PlayerFlowLimits := ⟨4 * 1024 * 1024, 32 * 1024 * 1024, 15000⟩
  maxRelaySendsPerPoll : Nat := 4096
  pendingAuthTimeout : Nat := 15000
  maxPendingRelayBytes : Nat := LibRtmp.maxPendingRelayBytes
  deferMediaRelay : Bool := false
  compactMediaHeaders : Bool := true
  chunkSize : Nat := 0

/-- A server. The relay export buffer, the listeners and the connection limits are left out. -/
structure Server where
  settings : ServerSettings := {}
  connections : List Conn := []
  activePublishRoutes : Routes := ∅
  nextConnId : Nat := 1
  externalRouteIds : AList (fun _ : RouteKey => Nat) := ∅
  externalRouteSeq : Nat := 1
  injectRouteLastSeen : AList (fun _ : RouteKey => Nat) := ∅
  pendingInjectedRelay : List RelayFrame := []
  orphanedRelay : List RelayFrame := []
  relayLocalRrOffset : Nat := 0
  relayInterleaveInjectFirst : Bool := true
  cache : CacheTable := {}

def maxInboundChunkSize : Nat := 65536
def maxExternalPublishRoutes : Nat := 1024
def injectRouteStale : Nat := 120000
def maxInjectRouteComponentBytes : Nat := 1024

namespace Server

def put (s : Server) (i : Nat) (t : Session) : Server :=
  { s with connections := s.connections.set i t.conn, activePublishRoutes := t.routes }

def indexOf (s : Server) (connId : Nat) : Option Nat :=
  s.connections.findIdx? (fun c => c.connId == connId)

def releaseAllPublishRoutes (s : Server) (connId : Nat) : Server :=
  { s with activePublishRoutes := s.activePublishRoutes.releaseAll connId }

def addConnection (s : Server) (now : Nat) (transport : Transport) (fd : Nat) : Server :=
  if s.nextConnId = 0 ∨ s.nextConnId ≥ externalPublisherIdBit then s
  else
    let conn : Conn :=
      { connId := s.nextConnId
        transport := some transport
        clientFd := some fd
        maxPendingRelayBytes := s.settings.maxPendingRelayBytes
        chunkSize :=
          if s.settings.chunkSize > 0 then
            min (max s.settings.chunkSize defaultChunkSize) maxInboundChunkSize
          else defaultChunkSize
        deferMediaRelay := s.settings.deferMediaRelay
        compactMediaHeaders := s.settings.compactMediaHeaders
        sessionSetupStarted := now
        publishRoutes := true }
    { s with nextConnId := s.nextConnId + 1, connections := s.connections ++ [conn] }

def externalPublisherIdForRoute (s : Server) (route : RouteKey) : Nat × Server :=
  match s.externalRouteIds.lookup route with
  | some id => (id, s)
  | none =>
    let next := if s.externalRouteSeq = 0 then 1 else s.externalRouteSeq
    let id := externalPublisherIdBit + next % externalPublisherIdBit
    let seq := (next + 1) % 2 ^ 64
    (id, { s with
      externalRouteSeq := if seq = 0 then 1 else seq
      externalRouteIds := s.externalRouteIds.insert route id })

def claimForInject (s : Server) (route : RouteKey) : Except ErrorCode (Nat × Server) :=
  match s.activePublishRoutes.lookup route with
  | some owner =>
    if s.externalRouteIds.lookup route = some owner then .ok (owner, s) else .error .internal
  | none =>
    if (s.activePublishRoutes.entries.filter (fun e => isExternalPublisherId e.2)).length ≥
        maxExternalPublishRoutes then .error .internal
    else
      let (id, s) := s.externalPublisherIdForRoute route
      .ok (id, { s with activePublishRoutes := s.activePublishRoutes.insert route id })

def injectRelayFrame (codec : Codec) (s : Server) (now : Nat) (route : RouteKey)
    (frameType : FrameType) (timestamp : UInt32) (payload : List UInt8) :
    Except ErrorCode Server :=
  let cachePayload := codec.normalize frameType payload
  let frame := fun id : Nat =>
    (⟨frameType, timestamp, payload, cachePayload, route.1, route.2, id⟩ : RelayFrame)
  if payload.length > min defaultMaxMsgLength.toNat rtmpWireMaxMsgLength then .error .internal
  else if route.1 = "" ∨ route.2 = "" then .error .internal
  else if route.1.utf8ByteSize > maxInjectRouteComponentBytes ∨
      route.2.utf8ByteSize > maxInjectRouteComponentBytes then .error .internal
  else if s.pendingInjectedRelay.length ≥ maxPendingRelayFrames ∨
      satAdd (s.pendingInjectedRelay.map RelayFrame.retainedBytes).sum (frame 0).retainedBytes >
        s.settings.maxPendingRelayBytes then .error .internal
  else
    match s.claimForInject route with
    | .error e => .error e
    | .ok (id, s) =>
      .ok { s with
        pendingInjectedRelay := s.pendingInjectedRelay ++ [frame id]
        injectRouteLastSeen := s.injectRouteLastSeen.insert route now }

def releaseInjectedRoute (s : Server) (route : RouteKey) : Server :=
  let s := { s with
    injectRouteLastSeen := s.injectRouteLastSeen.erase route
    pendingInjectedRelay := s.pendingInjectedRelay.filter (fun f => f.route ≠ route) }
  match s.externalRouteIds.lookup route with
  | none => s
  | some id =>
    { s with
      externalRouteIds := s.externalRouteIds.erase route
      cache := s.cache.forgetPublisher id
      activePublishRoutes :=
        if s.activePublishRoutes.lookup route = some id then s.activePublishRoutes.erase route
        else s.activePublishRoutes }

/-- The route has an id, or frames that a release drops. -/
def holdsInjected (s : Server) (route : RouteKey) : Bool :=
  (s.externalRouteIds.lookup route).isSome ||
    s.pendingInjectedRelay.any (fun f => f.route == route)

def queued (s : Server) : List RelayFrame :=
  s.orphanedRelay ++ s.connections.flatMap Conn.pendingRelay ++ s.pendingInjectedRelay

def injectedRoutes (s : Server) : List RouteKey :=
  (s.activePublishRoutes.entries.filter (fun e => isExternalPublisherId e.2)).map Sigma.fst

def releaseAllInjectedRoutes (s : Server) : Server :=
  { s.injectedRoutes.foldl releaseInjectedRoute s with externalRouteIds := ∅ }

def staleInjectRoutes (s : Server) (now : Nat) : List RouteKey :=
  let pending := s.pendingInjectedRelay.map RelayFrame.route
  (s.injectRouteLastSeen.entries.filter (fun e =>
    now - e.2 > injectRouteStale ∧ e.1 ∉ pending)).map Sigma.fst

def reapStaleInjectRoutes (s : Server) (now : Nat) : Server :=
  (s.staleInjectRoutes now).foldl releaseInjectedRoute s

def stop (s : Server) : Server :=
  let s := s.connections.foldl (fun s c => s.releaseAllPublishRoutes c.connId) s
  let s := releaseAllInjectedRoutes { s with connections := [] }
  { s with pendingInjectedRelay := [], orphanedRelay := [], cache := {} }

end Server

end LibRtmp
