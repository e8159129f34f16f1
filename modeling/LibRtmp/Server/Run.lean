import LibRtmp.Server.Poll

namespace LibRtmp

inductive ServerOp where
  | accept (now : Nat) (transport : Transport) (fd : Nat)
  | pass (input : PassInput)
  | poll (input : PollInput)
  | complete (connId : Nat) (host : Host) (role : Role) (requestId : Nat) (allow : Bool)
      (socket : Socket)
  | inject (now : Nat) (route : RouteKey) (frameType : FrameType) (timestamp : UInt32)
      (payload : List UInt8)
  | connInject (connId : Nat) (host : Host) (frameType : FrameType) (timestamp : UInt32)
      (payload : List UInt8)
  | releaseInjected (route : RouteKey)
  | releaseAllInjected
  | setRelayKey (connId : Nat) (relayKey : String)
  | setRelayEnabled (connId : Nat) (enabled : Bool)
  | tune (settings : ServerSettings)
  | stop

namespace Server

def actOn (codec : Codec) (s : Server) (connId : Nat) (act : ConnAct)
    (followUp : Conn → Conn × List InitFrame) : Server × List ServerEvent :=
  match s.indexOf connId with
  | none => (s, [])
  | some i =>
    match s.connections[i]? with
    | none => (s, [])
    | some c =>
      match Session.perform codec act ⟨c, s.activePublishRoutes⟩ with
      | (.error _, t, trace) => (s.put i t, trace)
      | (.ok _, t, trace) =>
        let (c, sent) := followUp t.conn
        (s.put i { t with conn := c }, trace ++ c.replayed sent)

def afterCompletion (codec : Codec) (cache : CacheTable) (role : Role) (socket : Socket)
    (c : Conn) : Conn × List InitFrame :=
  match role with
  | .publish => ((c.flush socket).2, [])
  | .play =>
    match c.replayInitFrames codec cache with
    | (true, c, sent) => (c, sent)
    | (false, c, sent) => ((c.flush socket).2, sent)

def tuneConn (s : Server) (connId : Nat) (f : Conn → Conn) : Server :=
  match s.indexOf connId with
  | none => s
  | some i => { s with connections := s.connections.modify i f }

end Server

def ServerOp.exec (cfg : CacheConfig) (s : Server) : ServerOp → Server × List ServerEvent
  | .accept now transport fd => (s.addConnection now transport fd, [])
  | .pass input =>
    let p := processConnections cfg input s
    (p.server, p.trace)
  | .poll input => s.pollImpl cfg input
  | .complete connId host role requestId allow socket =>
    s.actOn cfg.codec connId (.complete host role requestId allow)
      (Server.afterCompletion cfg.codec s.cache role socket)
  | .inject now route frameType timestamp payload =>
    match s.injectRelayFrame cfg.codec now route frameType timestamp payload with
    | .error _ => (s, [])
    | .ok t =>
      (t, (t.pendingInjectedRelay.drop s.pendingInjectedRelay.length).map ServerEvent.injected)
  | .connInject connId host frameType timestamp payload =>
    s.actOn cfg.codec connId (.inject host frameType timestamp payload) (fun c => (c, []))
  | .releaseInjected route =>
    (s.releaseInjectedRoute route, if s.holdsInjected route then [.released route] else [])
  | .releaseAllInjected =>
    (s.releaseAllInjectedRoutes, s.injectedRoutes.map ServerEvent.released)
  | .setRelayKey connId relayKey => (s.tuneConn connId (fun c => { c with relayKey }), [])
  | .setRelayEnabled connId enabled =>
    (s.tuneConn connId (fun c => { c with relayEnabled := enabled }), [])
  | .tune settings => ({ s with settings }, [])
  | .stop => (s.stop, [.stopped])

def Server.run (cfg : CacheConfig) (s : Server) : List ServerOp → Server × List ServerEvent
  | [] => (s, [])
  | op :: ops =>
    let (t, trace) := op.exec cfg s
    let (u, more) := Server.run cfg t ops
    (u, trace ++ more)

end LibRtmp
