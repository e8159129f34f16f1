import LibRtmp.Server.Pass

namespace LibRtmp

structure PollInput where
  first : PassInput := {}
  accepted : List (Nat × Transport × Nat) := []
  second : PassInput := {}

namespace Pass

def beforeBatch (first : List Abandoned) (p : Pass) : List Abandoned × Pass :=
  let (second, p) := p.drain
  let abandoned := first ++ second
  (abandoned, { p with server := p.server.dropStalePendingRelay abandoned })

/-- The routes abandoned, the batch, and the pass with its new players served. -/
def beforeFanout (cfg : CacheConfig) (first : List Abandoned) (p : Pass) :
    List Abandoned × List RelayFrame × Pass :=
  let (abandoned, p) := p.beforeBatch first
  let (frames, s) := p.server.buildRelayFrameBatch
  (abandoned, frames, replayInitFramesForNewPlayers cfg.codec { p with server := s })

def fanout (cfg : CacheConfig) (input : PassInput) (abandoned : List Abandoned)
    (frames : List RelayFrame) (p : Pass) : Relaying × List RelayFrame :=
  Relaying.run cfg p.server.settings input.now abandoned frames
    { fanout := { connections := p.server.connections, closed := p.closed }
      cache := p.server.cache
      relaySends := input.relaySends }

end Pass

def relaySendsAfter (cfg : CacheConfig) (input : PassInput) (s : Server) : Nat :=
  let (first, p) := Pass.receivePhase cfg input s
  let (abandoned, frames, p) := p.beforeFanout cfg first
  (p.fanout cfg input abandoned frames).1.relaySends

namespace Server

def acceptNewConnections (s : Server) (accepted : List (Nat × Transport × Nat)) : Server :=
  accepted.foldl (fun s a => s.addConnection a.1 a.2.1 a.2.2) s

/-- A pass, new connections, and a second pass if there are any, on the same send budget. -/
def pollImpl (cfg : CacheConfig) (input : PollInput) (s : Server) : Server × List ServerEvent :=
  let first := { input.first with relaySends := 0 }
  let p := processConnections cfg first s
  let t := p.server.acceptNewConnections input.accepted
  if t.connections.any (fun c => c.connId ≥ p.server.nextConnId) then
    let q := processConnections cfg
      { input.second with relaySends := relaySendsAfter cfg first s }
      { t with relayInterleaveInjectFirst := s.relayInterleaveInjectFirst }
    (q.server, p.trace ++ q.trace)
  else (t, p.trace)

end Server

end LibRtmp
