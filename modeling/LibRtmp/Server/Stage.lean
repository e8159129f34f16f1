import LibRtmp.Server.Run
import LibRtmp.Session.Ledger

namespace LibRtmp

/-- What the abstract session sees of a connection is unchanged. -/
def Unseen (c c' : Conn) : Prop :=
  ∀ routes, Session.ledger ⟨c', routes⟩ = Session.ledger ⟨c, routes⟩

/-- What it plays and waits for is unchanged unless it is disconnected. -/
structure Aside (c c' : Conn) : Prop where
  unseen : Unseen c c'
  stream : c'.currentStream = c.currentStream
  relayKey : c'.relayKey = c.relayKey
  caps : c'.negotiatedCaps = c.negotiatedCaps
  gone : c.transport = none → c'.transport = none
  waits : c'.transport = none ∨
    (c'.relayEnabled = c.relayEnabled ∧ (c.needsInitFrames = true → c'.needsInitFrames = true))

section Relations

variable {c d e : Conn}

theorem Unseen.refl (c : Conn) : Unseen c c := fun _ => rfl

theorem Unseen.trans (h : Unseen c d) (h' : Unseen d e) : Unseen c e :=
  fun routes => (h' routes).trans (h routes)

theorem Unseen.conn_id (h : Unseen c d) : d.connId = c.connId :=
  congrArg Ledger.connId (h ∅)

theorem Aside.refl (c : Conn) : Aside c c :=
  ⟨.refl c, rfl, rfl, rfl, fun h => h, .inr ⟨rfl, fun h => h⟩⟩

theorem Aside.trans (h : Aside c d) (h' : Aside d e) : Aside c e := by
  refine ⟨h.unseen.trans h'.unseen, h'.stream.trans h.stream, h'.relayKey.trans h.relayKey,
    h'.caps.trans h.caps, fun hc => h'.gone (h.gone hc), ?_⟩
  rcases h.waits with hgone | ⟨henabled, hneeds⟩
  · exact .inl (h'.gone hgone)
  · rcases h'.waits with hgone' | ⟨henabled', hneeds'⟩
    · exact .inl hgone'
    · exact .inr ⟨henabled'.trans henabled, fun hn => hneeds' (hneeds hn)⟩

end Relations

structure Stage where
  server : Server
  batch : List RelayFrame := []
  past : List ServerEvent := []

structure Offers (codec : Codec) (frame : RelayFrame) (before after : List Conn)
    (events : List ServerEvent) : Prop where
  aside : List.Forall₂ Aside before after
  offered : ∀ e ∈ events, ∃ c ∈ before,
    e = .delivered c.connId frame ∧ connWillReceiveRelayFrame codec c frame = true
  critical : (∀ video, codec.deliveryHint frame.frameType frame.cachedPayload video = .critical) →
    ∀ (i : Nat) (c c' : Conn), before[i]? = some c → after[i]? = some c' →
      connWillReceiveRelayFrame codec c frame = true →
      c'.transport = none ∨ .delivered c.connId frame ∈ events

def ServerEvent.drained (keys : List Abandoned) : ServerEvent → List Abandoned
  | .turn _ .detach _ => keys
  | .turn _ _ _ => []
  | .abandoned connId route => keys ++ [(route, connId)]
  | _ => keys

namespace Stage

/-- These routes were drained since something last acted on a connection. -/
def Noted (st : Stage) (abandoned : List Abandoned) : Prop :=
  abandoned ⊆ st.past.foldl ServerEvent.drained []

variable (cfg : CacheConfig)

inductive Calm (st : Stage) : Stage → Prop where
  | aside (connections : List Conn) (h : List.Forall₂ Aside st.server.connections connections) :
    Calm st { st with server := { st.server with connections } }
  | replay (i : Nat) (c : Conn) (h : st.server.connections[i]? = some c) :
    Calm st { st with
      server := st.server.put i
        ⟨(c.replayInitFrames cfg.codec st.server.cache).2.1, st.server.activePublishRoutes⟩
      past := st.past ++ c.replayed (c.replayInitFrames cfg.codec st.server.cache).2.2 }
  | drain (i : Nat) (hb : st.batch = []) :
    Calm st { st with
      server := (Server.drainOne ([], st.server) i).2
      past := st.past ++ abandonments (Server.drainOne ([], st.server) i).1 }
  | trim (abandoned : List Abandoned) (h : st.Noted abandoned) (hb : st.batch = []) :
    Calm st { st with server := st.server.dropStalePendingRelay abandoned }
  | take (hb : st.batch = [])
    (he : ∀ c ∈ st.server.connections, c.pendingCacheEvictions = []) :
    Calm st { st with
      server := st.server.buildRelayFrameBatch.2, batch := st.server.buildRelayFrameBatch.1 }
  | handle (frame : RelayFrame) (rest : List RelayFrame) (abandoned : List Abandoned)
    (connections : List Conn) (cache : CacheTable) (events : List ServerEvent)
    (hb : st.batch = frame :: rest) (hq : st.server.queued = []) (ha : st.Noted abandoned)
    (ho : Offers cfg.codec frame st.server.connections connections events)
    (hc : cache = Server.cacheRelayFrameUnlessOrphaned cfg abandoned st.server.connections
      st.server.cache frame) :
    Calm st
      { server := { st.server with connections, cache }
        batch := rest
        past := st.past ++ .handled frame st.server.cache cache :: events }
  | requeue (frame : RelayFrame) (rest : List RelayFrame) (h : st.batch = frame :: rest) :
    Calm st { st with server := st.server.requeueRelayFrame frame, batch := rest }

inductive Stir (st : Stage) : Stage → Prop where
  | act (i : Nat) (c : Conn) (act : ConnAct) (h : st.server.connections[i]? = some c)
    (ha : act ≠ .detach) (hb : st.batch = []) :
    Stir st { st with
      server := st.server.put i
        (Session.perform cfg.codec act ⟨c, st.server.activePublishRoutes⟩).2.1
      past := st.past ++
        (Session.perform cfg.codec act ⟨c, st.server.activePublishRoutes⟩).2.2 }
  | detach (i : Nat) (c : Conn) (claimed : String) (h : st.server.connections[i]? = some c)
    (hc : c.claimedPublishRoute = some claimed)
    (hl : st.server.activePublishRoutes.lookup (c.app, claimed) ≠ some c.connId)
    (hb : st.batch = []) :
    Stir st { st with
      server := st.server.put i ⟨c.detachLostPublishRoute, st.server.activePublishRoutes⟩
      past := st.past ++ [.turn c .detach c.detachLostPublishRoute] }
  | remove (i : Nat) (c : Conn) (h : st.server.connections[i]? = some c) (hb : st.batch = []) :
    Stir st { st with
      server := (Pass.removeOne { server := st.server } i).server
      past := st.past ++ [.closed c.connId] }
  | vacate (connId : Nat) : Stir st { st with server := st.server.releaseAllPublishRoutes connId }
  | adjust (i : Nat) (c c' : Conn) (h : st.server.connections[i]? = some c) (hu : Unseen c c') :
    Stir st { st with server := st.server.put i ⟨c', st.server.activePublishRoutes⟩ }
  | accept (now : Nat) (transport : Transport) (fd : Nat) :
    Stir st { st with server := st.server.addConnection now transport fd }
  | inject (now : Nat) (route : RouteKey) (frameType : FrameType) (timestamp : UInt32)
    (payload : List UInt8) (s : Server)
    (h : st.server.injectRelayFrame cfg.codec now route frameType timestamp payload = .ok s)
    (hb : st.batch = []) :
    Stir st { st with
      server := s
      past := st.past ++ (s.pendingInjectedRelay.drop st.server.pendingInjectedRelay.length).map
        ServerEvent.injected }
  | release (route : RouteKey) (hb : st.batch = []) :
    Stir st { st with
      server := st.server.releaseInjectedRoute route, past := st.past ++ [.released route] }
  | forget (route : RouteKey) (h : st.server.holdsInjected route = false) :
    Stir st { st with
      server := { st.server with
        injectRouteLastSeen := st.server.injectRouteLastSeen.erase route } }
  | tune (settings : ServerSettings) : Stir st { st with server := { st.server with settings } }
  | lead (relayInterleaveInjectFirst : Bool) :
    Stir st { st with server := { st.server with relayInterleaveInjectFirst } }

inductive Reset (st : Stage) : Stage → Prop where
  | ids : Reset st { st with server := { st.server with externalRouteIds := ∅ } }
  | stop (hb : st.batch = []) :
    Reset st { st with server := st.server.stop, past := st.past ++ [.stopped] }

def Move (st st' : Stage) : Prop := Calm cfg st st' ∨ Stir cfg st st'

def Step (st st' : Stage) : Prop := Move cfg st st' ∨ Reset st st'

end Stage

end LibRtmp
