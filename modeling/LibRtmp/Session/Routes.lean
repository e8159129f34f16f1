import LibRtmp.Lib.Maps
import LibRtmp.Session.State

namespace LibRtmp

abbrev Routes := AList (fun _ : RouteKey => Nat)

namespace Routes

/-- Fails when another connection owns the route. -/
def claim (m : Routes) (connId : Nat) (app stream : String) : Bool × Routes :=
  match m.lookup (app, stream) with
  | some owner => if owner ≠ connId then (false, m) else (true, m.insert (app, stream) connId)
  | none => (true, m.insert (app, stream) connId)

def release (m : Routes) (connId : Nat) (app stream : String) : Routes :=
  if m.lookup (app, stream) = some connId then m.erase (app, stream) else m

def forceRelease (m : Routes) (app stream : String) : Routes := m.erase (app, stream)

def releaseAll (m : Routes) (connId : Nat) : Routes := Maps.retain (fun _ owner => owner != connId) m

end Routes

structure Session where
  conn : Conn
  routes : Routes

inductive PublishRouteClaimOutcome where
  | claimed | contended | evictionQueueFull
  deriving DecidableEq, Repr

namespace Conn

/-- The oldest marker makes room for the newest and takes its queued frames with it. -/
def noteAbandonedRelayRoute (c : Conn) (route : RouteKey) : Conn :=
  let kept := c.abandonedRelayRoutes.filter (fun r => r ≠ route)
  match kept with
  | old :: rest =>
    if kept.length ≥ maxPendingCacheEvictions then
      { c with
        pendingRelay := c.pendingRelay.filter (fun f => (f.app, f.streamName) ≠ old)
        abandonedRelayRoutes := rest ++ [route] }
    else { c with abandonedRelayRoutes := kept ++ [route] }
  | [] => { c with abandonedRelayRoutes := [route] }

/-- Queue an eviction; a full queue gives up its oldest entry, which stays marked abandoned. -/
def tryPushPendingCacheEviction (c : Conn) (route : RouteKey) : Conn :=
  let c := match c.pendingCacheEvictions with
    | old :: rest =>
      if c.pendingCacheEvictions.length ≥ maxPendingCacheEvictions then
        { c with pendingCacheEvictions := rest }.noteAbandonedRelayRoute old
      else c
    | [] => c
  { c with pendingCacheEvictions := c.pendingCacheEvictions ++ [route] }

def pushPendingCacheEviction (c : Conn) (route : RouteKey) : Option Conn :=
  if c.pendingCacheEvictions.length ≥ maxPendingCacheEvictions then none
  else some { c with pendingCacheEvictions := c.pendingCacheEvictions ++ [route] }

def evictBoth (c : Conn) (first second : String) : Conn :=
  let c := if first ≠ "" then c.tryPushPendingCacheEviction (c.app, first) else c
  if second ≠ "" ∧ second ≠ first then c.tryPushPendingCacheEviction (c.app, second) else c

def detachLostPublishRoute (c : Conn) : Conn :=
  match c.claimedPublishRoute with
  | none => c
  | some claimed =>
    let live := c.relayRouteKey
    { c with
      claimedPublishRoute := none
      relayEnabled := false
      pendingRelay := c.pendingRelay.filter (fun f =>
        ¬ (f.app = c.app ∧ (f.streamName = claimed ∨ f.streamName = live))) }.evictBoth claimed live

def relayRouteAbandoned (c : Conn) (route : RouteKey) : Bool := c.abandonedRelayRoutes.contains route

end Conn

namespace Session

def releaseClaimedPublishRoute (s : Session) : Session :=
  match s.conn.claimedPublishRoute with
  | none => s
  | some claimed =>
    { conn := { s.conn with claimedPublishRoute := none }
      routes :=
        if s.conn.publishRoutes then s.routes.release s.conn.connId s.conn.app claimed
        else s.routes }

def evictActivePublishRoute (s : Session) : Session :=
  let claimed := s.conn.claimedPublishRoute.getD ""
  let released := s.releaseClaimedPublishRoute
  -- An idle connection may still hold a route it only injected media on.
  let second := if s.conn.isPublishing then s.conn.relayRouteKey else ""
  { released with
    conn := { released.conn.evictBoth claimed second with injectedMediaBytes := 0 } }

/-- Take a route, giving up the one held before; a full eviction queue undoes the switch. -/
def claimPublishRoute (stream : String) (s : Session) : PublishRouteClaimOutcome × Session :=
  let c := s.conn
  if c.publishRoutes then
    match s.routes.claim c.connId c.app stream with
    | (false, _) => (.contended, s)
    | (true, routes) =>
      match c.claimedPublishRoute with
      | none => (.claimed, ⟨{ c with claimedPublishRoute := some stream }, routes⟩)
      | some prev =>
        if prev = stream then (.claimed, ⟨c, routes⟩)
        else
          let routes := routes.release c.connId c.app prev
          let queued := if prev ≠ "" then c.pushPendingCacheEviction (c.app, prev) else some c
          match queued with
          | some c => (.claimed, ⟨{ c with claimedPublishRoute := some stream }, routes⟩)
          | none =>
            let routes := routes.release c.connId c.app stream
            (.evictionQueueFull, ⟨c, (routes.claim c.connId c.app prev).2⟩)
  else (.claimed, { s with conn := { c with claimedPublishRoute := some stream } })

end Session

end LibRtmp
