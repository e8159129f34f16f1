import Mathlib.Logic.Relation
import LibRtmp.Session.Media

namespace LibRtmp

structure StreamView where
  streamId : UInt32
  isPublishing : Bool
  isPlaying : Bool
  name : String
  deriving DecidableEq

namespace StreamView

def idle (v : StreamView) : StreamView := { v with isPublishing := false, isPlaying := false }

def takeRole (v : StreamView) : Role → String → StreamView
  | .publish, name => { v with isPublishing := true, isPlaying := false, name }
  | .play, name => { v with isPublishing := false, isPlaying := true, name }

def hasRole (v : StreamView) : Role → Bool
  | .publish => v.isPublishing
  | .play => v.isPlaying

end StreamView

def Stream.view (s : Stream) : StreamView := ⟨s.streamId, s.isPublishing, s.isPlaying, s.name⟩

/-- The abstract session: requests, role, route and queued frames, without buffers and timers. -/
structure Ledger where
  connId : Nat
  shared : Bool
  app : String
  joined : Bool
  stream : Option StreamView
  waiting : PerRole (Option PendingAuth)
  claimed : Option String
  routes : Routes
  relay : List RelayFrame
  evictions : List RouteKey
  abandoned : List RouteKey

def Session.ledger (s : Session) : Ledger where
  connId := s.conn.connId
  shared := s.conn.publishRoutes
  app := s.conn.app
  joined := decide (ConnState.appConnected ≤ s.conn.state)
  stream := s.conn.currentStream.map Stream.view
  waiting := s.conn.pendingAuth
  claimed := s.conn.claimedPublishRoute
  routes := s.routes
  relay := s.conn.pendingRelay
  evictions := s.conn.pendingCacheEvictions
  abandoned := s.conn.abandonedRelayRoutes

structure Cause where
  /-- The role may be taken under this name. -/
  permits : Role → String → Prop
  /-- The host was asked for the role and wants time, under this request id. -/
  asks : Role → String → Nat → Prop
  /-- A route may be claimed. -/
  claims : Prop
  /-- Frames may be queued that the peer did not publish, and a route switch taken back. -/
  injects : Prop
  /-- Frames already queued may be dropped for a new deferred publish. -/
  discards : Prop

namespace Ledger

/-- Every route of the table that belongs to this connection is the one it remembers. -/
def OwnsOnlyClaim (connId : Nat) (app : String) (claimed : Option String) (routes : Routes) : Prop :=
  ∀ a r, routes.lookup (a, r) = some connId → a = app ∧ claimed = some r

structure Reroutes (l : Ledger) (claimed : Option String) (routes : Routes) : Prop where
  others : ∀ k d, d ≠ l.connId → (routes.lookup k = some d ↔ l.routes.lookup k = some d)
  own : OwnsOnlyClaim l.connId l.app l.claimed l.routes →
    OwnsOnlyClaim l.connId l.app claimed routes

def Publishes (l : Ledger) : Prop :=
  l.waiting.publish = none ∧ ∃ v, l.stream = some v ∧ v.isPublishing = true

/-- Frames queued for a route cannot bring its cache entry back. -/
def Bars (l : Ledger) (k : RouteKey) : Prop :=
  k ∈ l.evictions ∨ k ∈ l.abandoned ∨ ∀ f ∈ l.relay, (f.app, f.streamName) ≠ k

/-- A frame of this connection is queued for relay; its route counts as live again. -/
inductive Queues (cause : Cause) (l : Ledger) : Ledger → Prop where
  | queue (frame : RelayFrame) (h : cause.injects ∨ l.Publishes)
    (hf : frame.publisherConnId = l.connId) :
    Queues cause l { l with
      relay := l.relay ++ [frame]
      abandoned := l.abandoned.filter (fun k => k ≠ (frame.app, frame.streamName)) }

inductive Step (cause : Cause) (l : Ledger) : Ledger → Prop where
  | enter (app : String) (h : l.joined = false) :
    Step cause l { l with app, joined := decide (app ≠ "") }
  | advance (h : cause.claims) : Step cause l { l with joined := true }
  | openStream (streamId : UInt32) (h : l.joined = true) :
    Step cause l { l with stream := some ⟨streamId, false, false, ""⟩ }
  | idle : Step cause l { l with stream := l.stream.map StreamView.idle }
  | forget (role : Role) : Step cause l { l with waiting := l.waiting.set role none }
  | wait (role : Role) (p : PendingAuth) (h : cause.asks role p.streamName p.requestId)
    (hw : l.waiting.get role = none) (hs : l.stream.isSome = true) :
    Step cause l { l with waiting := l.waiting.set role (some p) }
  | grant (role : Role) (name : String) (h : cause.permits role name) :
    Step cause l { l with stream := l.stream.map (fun v => v.takeRole role name) }
  | reroute (claimed : Option String) (routes : Routes)
    (h : l.shared = true → l.Reroutes claimed routes)
    (hc : claimed.isSome = true → l.claimed.isSome = true ∨ cause.claims) :
    Step cause l { l with claimed, routes }
  | revoke (routes : Routes) (h : ∀ k d, routes.lookup k = some d → l.routes.lookup k = some d) :
    Step cause l { l with routes }
  | evict (relay : List RelayFrame) (evictions abandoned : List RouteKey)
    (h : relay.Sublist l.relay) (he : evictions ≠ [])
    (hb : ∀ k, l.Bars k → Bars { l with relay, evictions, abandoned } k) :
    Step cause l { l with relay, evictions, abandoned }
  | restore (evictions : List RouteKey) (h : cause.injects) : Step cause l { l with evictions }
  | discard (h : cause.discards) : Step cause l { l with relay := [] }

def Acts (cause : Cause) (l l' : Ledger) : Prop := Step cause l l' ∨ Queues cause l l'

end Ledger

end LibRtmp
