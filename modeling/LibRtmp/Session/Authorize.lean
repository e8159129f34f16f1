import LibRtmp.Session.Output

namespace LibRtmp

open Actions

/-- What the media and E-RTMP modules and the media callbacks make of a payload. -/
structure MediaView where
  normalize : FrameType → List UInt8 → Option (List UInt8) := fun _ _ => none
  authorize : FrameType → List UInt8 → Except ErrorCode Nat := fun _ _ => .ok 1
  dispatch : FrameType → List UInt8 → Except ErrorCode Nat := fun _ _ => .ok 1
  isOnMetadata : List UInt8 → Bool := fun _ => false

/-- The clock and the installed callbacks with the answers they give during one call. -/
structure Host where
  now : Nat := 0
  auth : PerRole (Option (Nat → String → String → AuthorizationResult)) := ⟨none, none⟩
  legacy : PerRole (Option (Nat → String → String → Bool)) := ⟨none, none⟩
  cAuth : PerRole (Option (Nat → String → String → Bool)) := ⟨none, none⟩
  onReleaseStream : Option (Nat → String → String → Bool) := none
  onMedia : Option (Nat → FrameType → Option String → Bool) := none
  onFrame : Bool := false
  onSharedObject : Bool := false
  onSharedObjectAuth : Bool := false
  media : MediaView := {}

namespace Host

/-- Some other callback implies that this role must be authorized explicitly. -/
def requiresExplicitAuth (h : Host) (role : Role) : Bool :=
  (h.legacy.get role.other).isSome || (h.auth.get role.other).isSome ||
    (h.cAuth.get role.other).isSome || h.onMedia.isSome || h.onFrame || h.onSharedObject ||
    h.onSharedObjectAuth || h.onReleaseStream.isSome

/-- A C callback comes before a three-state one, and that before a plain one. -/
def decision (h : Host) (role : Role) (c : Conn) (name : String) : AuthorizationResult :=
  match h.cAuth.get role with
  | some cb => if cb c.connId c.app name then .allow else .deny
  | none =>
    match h.auth.get role with
    | some cb => cb c.connId c.app name
    | none =>
      match h.legacy.get role with
      | some cb => if cb c.connId c.app name then .allow else .deny
      | none => if h.requiresExplicitAuth role then .deny else .allow

end Host

def resolvedAuthIdMemory : Nat := 8

def rememberResolvedAuthId (ids : List Nat) (requestId : Nat) : List Nat :=
  if requestId ∈ ids then ids
  else (if ids.length ≥ resolvedAuthIdMemory then ids.drop 1 else ids) ++ [requestId]

def initReplayCooldown : Nat := 1000

def Stream.takeRole (s : Stream) (role : Role) (name : String) : Stream :=
  match role with
  | .publish => { s with isPublishing := true, isPlaying := false, name }
  | .play => { s with isPlaying := true, isPublishing := false, paused := false, name }

namespace Conn

def dropPendingAuth (c : Conn) (role : Role) : Conn :=
  match c.pendingAuth.get role with
  | none => c
  | some pending =>
    { c with
      pendingAuth := c.pendingAuth.set role none
      resolvedAuthIds := c.resolvedAuthIds.set role
        (rememberResolvedAuthId (c.resolvedAuthIds.get role) pending.requestId) }

def dropPendingAuthorizations (c : Conn) : Conn :=
  (c.dropPendingAuth .publish).dropPendingAuth .play

def mediaFlowedSinceArm (c : Conn) : Bool :=
  c.mediaBytesReceived > c.mediaBytesAtEpochStart ||
    c.injectedMediaBytesTotal > c.injectedBytesAtEpochStart

def nextRouteKey (c : Conn) (name : String) : String := if c.relayKey ≠ "" then c.relayKey else name

def requestInitReplay (c : Conn) (now : Nat) : Conn :=
  if c.lastInitReplayRequest.any (fun last => now - last < initReplayCooldown) then
    { c with initReplayDeferred := true }
  else
    { c with
      lastInitReplayRequest := some now, initReplayDeferred := false, needsInitFrames := true }

def armPublishDeadline (c : Conn) (now : Nat) (nextRouteKey : String) : Conn :=
  if c.publishMediaDeadlineRoute ≠ some nextRouteKey ∨ c.isPlaying ∨
      (¬ c.isPublishing ∧ c.mediaFlowedSinceArm) then
    { c with
      sessionSetupStarted := now
      injectedMediaBytes := 0
      mediaBytesAtEpochStart := c.mediaBytesReceived
      injectedBytesAtEpochStart := c.injectedMediaBytesTotal
      publishMediaDeadlineRoute := some nextRouteKey }
  else c

/-- Leaving play or another publish name needs a new approval and drops the queued frames. -/
def resetDeferredRelay (c : Conn) (name : String) : Conn :=
  if c.deferMediaRelay then
    if c.isPlaying ∨ (c.isPublishing ∧ c.currentStream.all (fun s => s.name ≠ name)) then
      { c with relayEnabled := false, pendingRelay := [] }
    else c
  else { c with relayEnabled := true }

def takeRole (c : Conn) (role : Role) (name : String) : Conn :=
  { c with currentStream := c.currentStream.map (fun s => s.takeRole role name) }

def startPublishing (c : Conn) (now : Nat) (name : String) : Conn :=
  (((c.armPublishDeadline now (c.nextRouteKey name)).resetDeferredRelay name).takeRole .publish
    name).transition .publishing

def startPlaying (c : Conn) (now : Nat) (name : String) : Conn :=
  let alreadyPlayingSame := c.currentStream.any (fun s => s.isPlaying && s.name == name)
  let c := { c.takeRole .play name with relayCongestion := none }
  let c :=
    if alreadyPlayingSame then c
    else { c with pauseGraceMediaBytesSent := c.mediaBytesSent }.requestInitReplay now
  c.transition .playing

def streamId (c : Conn) : UInt32 := (c.currentStream.map Stream.streamId).getD 0

end Conn

/-- Claim the route of a publish; a full eviction queue undoes the claim. -/
def Session.claimForPublish (name : String) (s : Session) : PublishRouteClaimOutcome × Session :=
  let prev := s.conn.relayRouteKey
  let next := s.conn.nextRouteKey name
  let renamingRoute := s.conn.isPublishing ∧ prev ≠ "" ∧ prev ≠ next
  let before := s.conn.pendingCacheEvictions.length
  match s.claimPublishRoute next with
  | (.claimed, s) =>
    let claimQueued := (s.conn.pendingCacheEvictions.drop before).any (fun k => k.2 = prev)
    if renamingRoute ∧ ¬ claimQueued then
      match s.conn.pushPendingCacheEviction (s.conn.app, prev) with
      | some c => (.claimed, { s with conn := c })
      | none =>
        (.evictionQueueFull,
          { conn := { s.conn with claimedPublishRoute := some prev }
            routes :=
              if s.conn.publishRoutes then
                ((s.routes.release s.conn.connId s.conn.app next).claim s.conn.connId s.conn.app
                  prev).2
              else s.routes })
    else (.claimed, s)
  | (outcome, s) => (outcome, s)

def denyPendingAuth (role : Role) : ConnM Unit := do
  let s ← get
  match s.conn.pendingAuth.get role with
  | none => pure ()
  | some _ => do
    modifyConn (fun c => c.dropPendingAuth role)
    sendDenied role

def completePublishAuthorized (h : Host) (name : String) : ConnM Unit := do
  match ← modifyGet (Session.claimForPublish name) with
  | .contended => sendOnStatus 0 "error" "NetStream.Publish.BadName" "Route already publishing"
  | .evictionQueueFull =>
    sendOnStatus 0 "error" "NetStream.Publish.BadName" "Publish not authorized"
  | .claimed => do
    denyPendingAuth .play
    modifyConn (fun c => c.startPublishing h.now name)
    let s ← get
    sendOnStatus s.conn.streamId "status" "NetStream.Publish.Start" "Publishing"

def completePlayAuthorized (h : Host) (name : String) : ConnM Unit := do
  denyPendingAuth .publish
  modifyConn (fun c => if c.deferMediaRelay then c else { c with relayEnabled := true })
  modify Session.evictActivePublishRoute
  modifyConn (fun c => c.startPlaying h.now name)
  let s ← get
  sendOnStatus s.conn.streamId "status" "NetStream.Play.Start" "Playing"
  sendStreamLifecycleBegin s.conn.streamId

def completeAuthorized (h : Host) : Role → String → ConnM Unit
  | .publish => completePublishAuthorized h
  | .play => completePlayAuthorized h

/-- A fresh media window, unless the connection already publishes on that route. -/
def Conn.releasePublishDeadline (c : Conn) (name : String) : Conn :=
  if c.isPublishing ∧ c.publishMediaDeadlineRoute = some (c.nextRouteKey name) then c
  else { c with publishMediaDeadlineRoute := none }

def applyDecision (h : Host) (role : Role) (name : String) (allow : Bool) : ConnM Unit :=
  if allow then do
    if role = .publish then modifyConn (fun c => c.releasePublishDeadline name)
    completeAuthorized h role name
  else sendDenied role

/-- Resolve the waiting request of a role. An id other than the waiting one resolves nothing. -/
def completeAuthorization (h : Host) (role : Role) (requestId : Nat) (allow : Bool) :
    ConnM Unit := do
  let s ← get
  match s.conn.pendingAuth.get role with
  | none => pure ()
  | some pending =>
    if pending.requestId ≠ requestId then pure ()
    else do
      modifyConn (fun c => c.dropPendingAuth role)
      applyDecision h role pending.streamName allow

def completePublishAuthorization (h : Host) (requestId : Nat) (allow : Bool) : ConnM Unit :=
  completeAuthorization h .publish requestId allow

def completePlayAuthorization (h : Host) (requestId : Nat) (allow : Bool) : ConnM Unit :=
  completeAuthorization h .play requestId allow

def reapTimedOutRole (h : Host) (timeout : Nat) (role : Role) : ConnM Bool := do
  let s ← get
  match s.conn.pendingAuth.get role with
  | none => pure false
  | some pending =>
    if h.now - pending.requestedAt ≥ timeout then do
      modifyConn (fun c => { c with authSealed := c.authSealed.set role true })
      let _ ← attempt (completeAuthorization h role pending.requestId false)
      pure true
    else pure false

def reapTimedOutPendingAuth (h : Host) (timeout : Nat) : ConnM Bool := do
  let publish ← reapTimedOutRole h timeout .publish
  let play ← reapTimedOutRole h timeout .play
  pure (publish || play)

end LibRtmp
