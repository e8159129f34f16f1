import LibRtmp.Server.Acts
import LibRtmp.Session.Turn

namespace LibRtmp

open Actions

structure Standing where
  stream : Option Stream
  relayKey : String
  relayEnabled : Bool
  deferMediaRelay : Bool
  relayCongestion : Option RelayCongestion
  sessionSetupStarted : Nat
  publishMediaDeadlineRoute : Option String
  mediaBytesReceived : Nat
  mediaBytesSent : Nat
  injectedMediaBytesTotal : Nat
  mediaBytesAtEpochStart : Nat
  injectedBytesAtEpochStart : Nat
  teardownGraceMediaBytesReceived : Nat
  teardownGraceInjectedBytes : Nat
  pauseGraceMediaBytesSent : Nat
  transport : Option Transport

def Conn.standing (c : Conn) : Standing where
  stream := c.currentStream
  relayKey := c.relayKey
  relayEnabled := c.relayEnabled
  deferMediaRelay := c.deferMediaRelay
  relayCongestion := c.relayCongestion
  sessionSetupStarted := c.sessionSetupStarted
  publishMediaDeadlineRoute := c.publishMediaDeadlineRoute
  mediaBytesReceived := c.mediaBytesReceived
  mediaBytesSent := c.mediaBytesSent
  injectedMediaBytesTotal := c.injectedMediaBytesTotal
  mediaBytesAtEpochStart := c.mediaBytesAtEpochStart
  injectedBytesAtEpochStart := c.injectedBytesAtEpochStart
  teardownGraceMediaBytesReceived := c.teardownGraceMediaBytesReceived
  teardownGraceInjectedBytes := c.teardownGraceInjectedBytes
  pauseGraceMediaBytesSent := c.pauseGraceMediaBytesSent
  transport := c.transport

/-- A change that leaves the standing alone. It may write off injected media. -/
def Routine (c d : Conn) : Prop :=
  d.standing = c.standing ∧
    (d.injectedMediaBytes = c.injectedMediaBytes ∨ d.injectedMediaBytes = 0)

namespace Routine

variable {c d e : Conn}

theorem trans (h : Routine c d) (h' : Routine d e) : Routine c e := by
  refine ⟨h'.1.trans h.1, ?_⟩
  rcases h'.2 with hsame | hnone
  · rw [hsame]
    exact h.2
  · exact .inr hnone

theorem stream (h : Routine c d) : d.currentStream = c.currentStream :=
  congrArg Standing.stream h.1

theorem active (h : Routine c d) : d.isActive = c.isActive := by
  unfold Conn.isActive
  rw [h.stream]

end Routine

structure Orders where
  now : Nat
  grants : Role → String → Prop
  late : Prop
  ends : Prop
  pauses : Bool → Prop
  selects : Prop
  receives : Prop
  supplies : Prop
  loses : Prop

inductive Conn.Deed (o : Orders) (c : Conn) : Conn → Prop where
  | enable (h : c.deferMediaRelay = false) : Deed o c { c with relayEnabled := true }
  | publish (name : String) (h : o.grants .publish name) : Deed o c (c.startPublishing o.now name)
  | play (name : String) (h : o.grants .play name) : Deed o c (c.startPlaying o.now name)
  | rearm (name : String) (h : o.late) : Deed o c (c.releasePublishDeadline name)
  | close (h : o.ends) : Deed o c (c.endRole o.now c.isActive)
  | replace (count : Nat) (h : o.ends) : Deed o c (c.openStream o.now c.isActive count)
  | pause (flag : Bool) (h : o.pauses flag) : Deed o c (c.setPaused o.now flag)
  | select (frameType : FrameType) (flag : Bool) (h : o.selects) :
    Deed o c (c.setReceive frameType flag)
  | receive (bytes : Nat) (h : o.receives) :
    Deed o c { c with mediaBytesReceived := satAdd c.mediaBytesReceived bytes }
  | supply (bytes : Nat) (h : o.supplies) :
    Deed o c { c with
      injectedMediaBytes := satAdd c.injectedMediaBytes bytes
      injectedMediaBytesTotal := satAdd c.injectedMediaBytesTotal bytes }
  | rekey (relayKey : String) (h : o.supplies) : Deed o c { c with relayKey }
  | lose (h : o.loses) : Deed o c { c with relayEnabled := false }

inductive Conn.Step (o : Orders) (c d : Conn) : Prop where
  | routine (h : Routine c d)
  | deed (h : Conn.Deed o c d)

def ConnState.Open (s : ConnState) : Prop := .connected ≤ s ∧ s < .closing

instance (s : ConnState) : Decidable s.Open := inferInstanceAs (Decidable (_ ∧ _))

structure Core where
  standing : Standing
  state : ConnState
  app : String
  pendingAuth : PerRole (Option PendingAuth)
  resolvedAuthIds : PerRole (List Nat)
  authSealed : PerRole Bool
  needsInitFrames : Bool
  lastInitReplayRequest : Option Nat
  initReplayDeferred : Bool
  activeStreamCount : Nat
  nextStreamId : UInt32

def Conn.core (c : Conn) : Core where
  standing := c.standing
  state := c.state
  app := c.app
  pendingAuth := c.pendingAuth
  resolvedAuthIds := c.resolvedAuthIds
  authSealed := c.authSealed
  needsInitFrames := c.needsInitFrames
  lastInitReplayRequest := c.lastInitReplayRequest
  initReplayDeferred := c.initReplayDeferred
  activeStreamCount := c.activeStreamCount
  nextStreamId := c.nextStreamId

/-- The request of a role that waits for the host, and the ids that are not accepted for it. -/
def Conn.slot (c : Conn) (role : Role) : Option PendingAuth × List Nat :=
  (c.pendingAuth.get role, c.resolvedAuthIds.get role)

/-- Work on buffers, queues and routes. It may write off injected media. -/
def Tidies (c d : Conn) : Prop :=
  d.core = c.core ∧ (d.injectedMediaBytes = c.injectedMediaBytes ∨ d.injectedMediaBytes = 0)

namespace Tidies

variable {c d e : Conn}

theorem refl (c : Conn) : Tidies c c := ⟨rfl, .inl rfl⟩

theorem trans (h : Tidies c d) (h' : Tidies d e) : Tidies c e := by
  refine ⟨h'.1.trans h.1, ?_⟩
  rcases h'.2 with hsame | hnone
  · rw [hsame]
    exact h.2
  · exact .inr hnone

theorem routine (h : Tidies c d) : Routine c d := ⟨congrArg Core.standing h.1, h.2⟩

end Tidies

/-- What an act may do to a connection as a whole, and for which roles it asks the host. -/
structure Mandate extends Orders where
  asks : Role → Prop

inductive Conn.Move (o : Mandate) (c : Conn) : Conn → Prop where
  | tidy (d : Conn) (h : Tidies c d) : Move o c d
  | enter (app : String) (h : c.state < .appConnected) : Move o c { c with app }
  | advance (new : ConnState) (h : new.Open) : Move o c (c.transition new)
  | drop (role : Role) (h : ¬ o.asks role) : Move o c (c.dropPendingAuth role)
  | bar (role : Role) : Move o c { c with authSealed := c.authSealed.set role true }
  | await (role : Role) (p : PendingAuth) (h : o.asks role)
    (hfree : c.pendingAuth.get role = none) (hnew : p.requestId ∉ c.resolvedAuthIds.get role) :
    Move o c { c with pendingAuth := c.pendingAuth.set role (some p) }
  | deed (d : Conn) (h : Conn.Deed o.toOrders c d) : Move o c d

def Grants (c : Conn) : ConnAct → Role → String → Prop
  | .inbound (.message host m budget _), role, name =>
    budget ≠ 0 ∧ Carries m role name ∧ Admits c role name ∧ host.decision role c name = .allow
  | .complete _ r requestId allow, role, name =>
    r = role ∧ allow = true ∧ ∃ p, c.pendingAuth.get role = some p ∧ p.requestId = requestId ∧
      p.streamName = name
  | _, _, _ => False

def ConnAct.command : ConnAct → Option Command
  | .inbound (.message _ (.command command) budget _) => if budget = 0 then none else some command
  | _ => none

def Command.endsRole : Command → Bool
  | .fcUnpublish | .deleteStream | .closeStream _ | .createStream _ _ => true
  | _ => false

def Command.asks : Command → Role → Bool
  | .publish _, .publish | .play _, .play => true
  | _, _ => false

def Command.selects : Command → Bool
  | .receiveAudio _ | .receiveVideo _ => true
  | _ => false

def PeerMessage.isMedia : PeerMessage → Bool
  | .media _ _ _ _ | .data _ _ _ | .aggregate _ _ _ => true
  | _ => false

def ConnAct.now : ConnAct → Nat
  | .inbound (.message host _ _ _) | .complete host _ _ _ => host.now
  | _ => 0

def ConnAct.orders (c : Conn) (act : ConnAct) : Orders where
  now := act.now
  grants := Grants c act
  late := act matches .complete _ _ _ _
  ends := act.command.any Command.endsRole = true
  pauses flag := act.command.any (fun
    | .pause (some f) => f == flag
    | _ => false) = true
  selects := act.command.any Command.selects = true
  receives := match act with
    | .inbound (.message _ m _ _) => m.isMedia = true
    | _ => False
  supplies := act matches .inject _ _ _ _
  loses := act matches .detach

def ConnAct.mandate (c : Conn) (act : ConnAct) : Mandate where
  toOrders := act.orders c
  asks role := act.command.any (fun command => command.asks role) = true

def Conn.turn (codec : Codec) (routes : Routes) (act : ConnAct) (c : Conn) : Conn :=
  (Session.perform codec act ⟨c, routes⟩).2.1.conn

end LibRtmp
