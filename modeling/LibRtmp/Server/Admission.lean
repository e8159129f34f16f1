import LibRtmp.Server.Run

namespace LibRtmp

inductive IpAddr where
  | v4 (bits : BitVec 32)
  | v6 (bits : BitVec 128)
  deriving DecidableEq, Repr

namespace IpAddr

def toIpv4Mapped (bits : BitVec 128) : Option (BitVec 32) :=
  if bits.extractLsb' 32 96 = 0xffff then some (bits.extractLsb' 0 32) else none

/-- An IPv4-mapped IPv6 address counts as the IPv4 address. -/
def canonical : IpAddr → IpAddr
  | .v4 bits => .v4 bits
  | .v6 bits => ((toIpv4Mapped bits).map .v4).getD (.v6 bits)

end IpAddr

structure SocketAddr where
  ip : IpAddr
  port : UInt16
  deriving DecidableEq, Repr

def peerIp (remoteAddr : SocketAddr) : IpAddr := remoteAddr.ip.canonical

/-- The connection limits of the configuration; 0 or less stands for the default. -/
structure AdmissionConfig where
  maxConnections : Int := 0
  maxConnectionsPerAddr : Int := 0
  maxPendingTlsPerAddr : Int := 0

def maxPendingTlsHandshakes : Nat := 128
def defaultMaxConnectionsPerAddr : Nat := 4
def defaultMaxPendingTlsPerAddr : Nat := defaultMaxConnectionsPerAddr
def maxAcceptsPerPoll : Nat := 256

structure PendingTlsConnection where
  remoteAddr : SocketAddr
  remoteIp : IpAddr
  deadline : Nat
  deriving DecidableEq, Repr

structure TlsProgress where
  outcome : Except ErrorCode (Option (Transport × Nat))
  now : Nat

structure Arrival where
  remoteAddr : SocketAddr
  now : Nat
  fd : Nat
  tls : Except ErrorCode (Option Transport)
  deadline : Nat

/-- A server with its peers, handshakes and listeners; `issued` has the ids given out so far. -/
structure Admission where
  config : AdmissionConfig
  server : Server := {}
  remoteAddr : Nat → SocketAddr := fun _ => ⟨.v4 0, 0⟩
  pendingTls : List PendingTlsConnection := []
  listeners : List Bool := []
  nextListenerAccept : Nat := 0
  accepted : List (Nat × Transport × Nat) := []
  issued : List Nat := []

namespace Admission

def totalConnectionSlotsInUse (a : Admission) : Nat :=
  a.server.connections.length + a.pendingTls.length

def maxConnectionsReached (a : Admission) : Bool :=
  a.config.maxConnections > 0 ∧ (a.totalConnectionSlotsInUse : Int) ≥ a.config.maxConnections

def pendingTlsLimitReached (a : Admission) : Bool :=
  if a.config.maxConnections > 0 then a.maxConnectionsReached
  else a.pendingTls.length ≥ maxPendingTlsHandshakes

def maxConnectionsPerAddr (a : Admission) : Nat :=
  if a.config.maxConnectionsPerAddr > 0 then a.config.maxConnectionsPerAddr.toNat
  else defaultMaxConnectionsPerAddr

def maxPendingTlsPerAddr (a : Admission) : Nat :=
  if a.config.maxPendingTlsPerAddr > 0 then a.config.maxPendingTlsPerAddr.toNat
  else defaultMaxPendingTlsPerAddr

def activeConnectionsForIp (a : Admission) (ip : IpAddr) : Nat :=
  a.server.connections.countP (fun c => peerIp (a.remoteAddr c.connId) = ip)

def pendingTlsForIp (a : Admission) (ip : IpAddr) : Nat :=
  a.pendingTls.countP (fun p => p.remoteIp = ip)

/-- Keep a handshake for later, unless its address or the server has too many. -/
def queuePendingTls (a : Admission) (p : PendingTlsConnection) : Admission :=
  if a.pendingTlsForIp p.remoteIp ≥ a.maxPendingTlsPerAddr then a
  else if a.pendingTlsLimitReached then a
  else { a with pendingTls := a.pendingTls ++ [p] }

def addConnection (a : Admission) (now : Nat) (transport : Transport) (fd : Nat)
    (remoteAddr : SocketAddr) : Admission :=
  if a.maxConnectionsReached then a
  else if a.activeConnectionsForIp (peerIp remoteAddr) ≥ a.maxConnectionsPerAddr then a
  else if a.server.nextConnId = 0 ∨ a.server.nextConnId ≥ externalPublisherIdBit then a
  else
    { a with
      server := a.server.addConnection now transport fd
      remoteAddr := Function.update a.remoteAddr a.server.nextConnId remoteAddr
      accepted := a.accepted ++ [(now, transport, fd)]
      issued := a.issued ++ [a.server.nextConnId] }

def progressOne (now : Nat) (a : Admission) (p : PendingTlsConnection) (t : TlsProgress) :
    Admission :=
  if now ≥ p.deadline then a
  else if a.maxConnectionsReached then { a with pendingTls := a.pendingTls ++ [p] }
  else
    match t.outcome with
    | .ok (some (transport, fd)) => a.addConnection t.now transport fd p.remoteAddr
    | .ok none =>
      if t.now < p.deadline then { a with pendingTls := a.pendingTls ++ [p] } else a
    | .error _ => a

def progressPendingTls (a : Admission) (now : Nat) (progress : Nat → TlsProgress) : Admission :=
  a.pendingTls.zipIdx.foldl (fun a p => a.progressOne now p.1 (progress p.2))
    { a with pendingTls := [] }

def acceptOne (a : Admission) (i : Nat) (arrival : Arrival) : Admission :=
  let a := { a with nextListenerAccept := (i + 1) % a.listeners.length }
  if a.listeners.getD i false then
    match arrival.tls with
    | .ok (some transport) => a.addConnection arrival.now transport arrival.fd arrival.remoteAddr
    | .ok none =>
      a.queuePendingTls ⟨arrival.remoteAddr, peerIp arrival.remoteAddr, arrival.deadline⟩
    | .error _ => a
  else a.addConnection arrival.now ⟨false⟩ arrival.fd arrival.remoteAddr

end Admission

/-- The accept loop under way: the sockets to come, how many were served, and how it goes on. -/
structure Accepting where
  admission : Admission
  incoming : List (Option Arrival)
  serviced : Nat := 0
  acceptedAny : Bool := false
  returned : Bool := false

namespace Accepting

def visit (st : Accepting) (i : Nat) : Accepting :=
  if st.returned then st
  else if st.admission.maxConnectionsReached ∨ st.serviced ≥ maxAcceptsPerPoll then
    { st with returned := true }
  else
    match st.incoming with
    | [] => st
    | none :: incoming => { st with incoming }
    | some arrival :: incoming =>
      { st with
        admission := st.admission.acceptOne i arrival
        incoming
        serviced := st.serviced + 1
        acceptedAny := true }

def sweep (st : Accepting) : Accepting :=
  let count := st.admission.listeners.length
  let start := st.admission.nextListenerAccept
  (List.range count).foldl (fun st offset => st.visit ((start + offset) % count))
    { st with acceptedAny := false }

def loop : Nat → Accepting → Accepting
  | 0, st => st
  | fuel + 1, st =>
    let st := st.sweep
    if st.returned ∨ ¬ st.acceptedAny then st else loop fuel st

end Accepting

/-- What a poll meets at the door: the time, the handshakes' progress, and waiting sockets. -/
structure DoorInput where
  now : Nat := 0
  progress : Nat → TlsProgress := fun _ => ⟨.ok none, 0⟩
  incoming : List (Option Arrival) := []

namespace Admission

def acceptNewConnections (a : Admission) (door : DoorInput) : Admission :=
  let a := a.progressPendingTls door.now door.progress
  if a.listeners.length = 0 then { a with nextListenerAccept := 0 }
  else
    let a := { a with nextListenerAccept := a.nextListenerAccept % a.listeners.length }
    (Accepting.loop (door.incoming.length + 1)
      { admission := a, incoming := door.incoming }).admission

def poll (cfg : CacheConfig) (first second : PassInput) (door : DoorInput) (a : Admission) :
    Admission :=
  let p := processConnections cfg { first with relaySends := 0 } a.server
  let b := { a with server := p.server, accepted := [] }.acceptNewConnections door
  { b with server := (a.server.pollImpl cfg ⟨first, b.accepted, second⟩).1 }

end Admission

def ServerOp.betweenPolls : ServerOp → Bool
  | .accept .. | .poll _ | .stop => false
  | _ => true

structure HostCall where
  op : ServerOp
  between : op.betweenPolls = true

inductive AdmissionOp where
  | poll (first second : PassInput) (door : DoorInput)
  | host (call : HostCall)
  | listen (tls : Bool)
  | stop

namespace Admission

def new (config : AdmissionConfig) (settings : ServerSettings) (connIdBase : Nat) : Admission :=
  { config, server := { settings, nextConnId := connIdBase } }

def step (cfg : CacheConfig) (a : Admission) : AdmissionOp → Admission
  | .poll first second door => a.poll cfg first second door
  | .host call => { a with server := (call.op.exec cfg a.server).1 }
  | .listen tls => { a with listeners := a.listeners ++ [tls] }
  | .stop =>
    { a with server := a.server.stop, pendingTls := [], listeners := [], nextListenerAccept := 0 }

end Admission

end LibRtmp
