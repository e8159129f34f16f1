import LibRtmp.Session.Media
import LibRtmp.Server.Fanout

namespace LibRtmp

open Actions

/-- The payload helpers are the same for every connection; the host only decides. -/
def Host.reading (h : Host) (codec : Codec) : Host :=
  { h with
    media := { h.media with normalize := codec.normalize, isOnMetadata := codec.isOnMetadata } }

inductive Inbound where
  | start
  | message (host : Host) (msg : PeerMessage) (budget : Nat) (socket : Socket)
  | acknowledge (sequence : UInt32)

def ctrlAcknowledgement : UInt8 := 0x03

def Inbound.action (codec : Codec) : Inbound → ConnM Unit
  | .start => modifyConn (fun c => { c with recvTrackBudget := maxTracksPerRecv })
  | .message host msg budget socket => do
    let _ ← handleMessage (host.reading codec) msg budget
    -- An accepted play leaves its answer for the write that has the init frames.
    modifyConn (fun c => if c.needsInitFrames then c else (c.flush socket).2)
  | .acknowledge sequence => sendControl ctrlAcknowledgement (Bytes.toBe 4 sequence.toNat)

inductive ConnAct where
  | inbound (event : Inbound)
  | complete (host : Host) (role : Role) (requestId : Nat) (allow : Bool)
  | inject (host : Host) (frameType : FrameType) (timestamp : UInt32) (payload : List UInt8)
  | reap (now timeout : Nat)
  | detach

def ConnAct.action (codec : Codec) : ConnAct → ConnM Bool
  | .inbound event => do
    event.action codec
    pure false
  | .complete host role requestId allow => do
    completeAuthorization host role requestId allow
    pure false
  | .inject host frameType timestamp payload => do
    injectRelayFrame (host.reading codec) frameType timestamp payload
    pure false
  | .reap now timeout => reapTimedOutPendingAuth { now } timeout
  | .detach => do
    modifyConn Conn.detachLostPublishRoute
    pure false

abbrev InitFrame := FrameType × UInt32 × List UInt8

inductive ServerEvent where
  | turn (before : Conn) (act : ConnAct) (after : Conn)
  | injected (frame : RelayFrame)
  | abandoned (connId : Nat) (route : RouteKey)
  | replayed (connId : Nat) (frame : InitFrame)
  | handled (frame : RelayFrame) (before after : CacheTable)
  | delivered (connId : Nat) (frame : RelayFrame)
  | closed (connId : Nat)
  | released (route : RouteKey)
  | stopped

def ServerEvent.accepted : ServerEvent → List RelayFrame
  | .turn before _ after => after.pendingRelay.drop before.pendingRelay.length
  | .injected frame => [frame]
  | _ => []

def ServerEvent.relayed : ServerEvent → List RelayFrame
  | .handled frame _ _ => [frame]
  | _ => []

def Session.perform (codec : Codec) (act : ConnAct) (s : Session) :
    Except ErrorCode Bool × Session × List ServerEvent :=
  match Action.on (act.action codec) s with
  | (r, t) => (r, t, [.turn s.conn act t.conn])

def Session.receive (codec : Codec) : List Inbound → Session → Bool × Session × List ServerEvent
  | [], s => (false, s, [])
  | event :: events, s =>
    match s.perform codec (.inbound event) with
    | (.error _, t, trace) => (true, t, trace)
    | (.ok _, t, trace) =>
      let (failed, u, more) := Session.receive codec events t
      (failed, u, trace ++ more)

end LibRtmp
