import LibRtmp.Message.Connect
import LibRtmp.Session.Authorize

namespace LibRtmp

open Actions

/-- A `connect` that was read; `app` is its app as text, `none` when that is not valid. -/
structure ConnectRequest where
  output : Ertmp.ConnectOutput
  app : Option String

/-- A command as its AMF payload was read; an argument that cannot be read is `none`. -/
inductive Command where
  | connect (request : Except UInt64 ConnectRequest)
  | createStream (transactionId : Option UInt64) (parsed : Bool)
  | publish (name : Option String)
  | play (name : Option String)
  | fcUnpublish
  | deleteStream
  | fcPublish
  | releaseStream (name : Option String)
  | pause (flag : Option Bool)
  | seek
  | receiveAudio (flag : Option Bool)
  | receiveVideo (flag : Option Bool)
  | closeStream (target : Option UInt32)
  | unknown

def Stream.endRole (s : Stream) : Stream :=
  { s with isPublishing := false, isPlaying := false, paused := false }

namespace Conn

/-- Whether a teardown earns a new setup window: only media not yet counted for one does. -/
def teardownRefreshesSetupTimer (c : Conn) : Bool :=
  c.mediaBytesReceived > c.teardownGraceMediaBytesReceived ||
    c.injectedMediaBytesTotal > c.teardownGraceInjectedBytes ||
    c.mediaBytesSent > c.pauseGraceMediaBytesSent

def refreshSetupTimer (c : Conn) (now : Nat) (wasActive : Bool) : Conn :=
  if wasActive && c.teardownRefreshesSetupTimer then
    { c with
      teardownGraceMediaBytesReceived := c.mediaBytesReceived
      teardownGraceInjectedBytes := c.injectedMediaBytesTotal
      pauseGraceMediaBytesSent := c.mediaBytesSent
      sessionSetupStarted := now }
  else c

def isActive (c : Conn) : Bool := c.currentStream.any (fun s => s.isPublishing || s.isPlaying)

def enterApp (c : Conn) (app : String) (output : Ertmp.ConnectOutput) : Conn :=
  let c := { c with app }
  let c := match output.info.negotiated with
    | some caps => { c.transition .capsNegotiated with negotiatedCaps := caps }
    | none => c
  { c with connectObjectEncoding := UInt64.ofNat output.objectEncoding }.transition .appConnected

/-- Streams after a `createStream`, which replaces a current one. -/
def projectedStreamCount (c : Conn) : Nat :=
  if c.currentStream.isSome then c.activeStreamCount else c.activeStreamCount + 1

def openStream (c : Conn) (now : Nat) (wasActive : Bool) (count : Nat) : Conn :=
  let c := { c with relayEnabled := false }.dropPendingAuthorizations
  let c := { c with
    activeStreamCount := count
    nextStreamId := c.nextStreamId + 1
    currentStream := some { streamId := c.nextStreamId + 1 } }
  (c.refreshSetupTimer now wasActive).transition .streamCreated

def endRole (c : Conn) (now : Nat) (wasActive : Bool) : Conn :=
  let c := { c with
    currentStream := c.currentStream.map Stream.endRole
    relayCongestion := none
    activeStreamCount := c.activeStreamCount - 1 }
  { c.refreshSetupTimer now wasActive with relayEnabled := false }.dropPendingAuthorizations

/-- Pausing a player that media reached since the last time restarts its setup timer. -/
def refreshPauseTimer (c : Conn) (now : Nat) (flag : Bool) (s : Stream) : Conn :=
  if flag ∧ s.isPlaying ∧ ¬ s.paused ∧ c.mediaBytesSent > c.pauseGraceMediaBytesSent then
    { c with sessionSetupStarted := now, pauseGraceMediaBytesSent := c.mediaBytesSent }
  else c

def setPaused (c : Conn) (now : Nat) (flag : Bool) : Conn :=
  let c := match c.currentStream with
    | none => c
    | some s =>
      { c.refreshPauseTimer now flag s with currentStream := some { s with paused := flag } }
  if flag then c else { c with relayCongestion := none }

end Conn

def handleConnect (request : Except UInt64 ConnectRequest) : ConnM Unit := do
  let s ← get
  -- A second `connect` must not repoint the app of an authorized stream.
  if s.conn.state ≥ .appConnected then pure ()
  else
    match request with
    | .error txn =>
      sendCommandError txn "NetConnection.Connect.Rejected"
        "Invalid connect command or capability negotiation."
    | .ok ⟨output, app⟩ =>
      let transactionId := UInt64.ofNat output.info.transactionId
      match app with
      | none =>
        sendCommandError transactionId "NetConnection.Connect.Rejected"
          "Invalid connect app name."
      | some app =>
        if app = "" then do
          modifyConn (fun c => { c with app })
          sendCommandError transactionId "NetConnection.Connect.Rejected"
            "Empty connect app name."
        else do
          modifyConn (fun c => c.enterApp app output)
          sendConnectResponse transactionId output.info.negotiated

def handleCreateStream (h : Host) (transactionId : Option UInt64) (parsed : Bool) : ConnM Unit := do
  let s ← get
  if s.conn.state < .appConnected then
    sendOnStatus 0 "error" "NetStream.Failed" "connect required before createStream"
  else
    match transactionId with
    | none => sendOnStatus 0 "error" "NetStream.Failed" "Invalid createStream"
    | some txn =>
      if ¬ parsed then sendCommandError txn "NetStream.Failed" "Invalid createStream"
      else
        if s.conn.projectedStreamCount > maxStreamsPerConn then
          sendCommandError txn "NetStream.Failed" "Too many streams"
        else do
          modify Session.evictActivePublishRoute
          modifyConn (fun c => c.openStream h.now s.conn.isActive s.conn.projectedStreamCount)
          let s ← get
          sendCreateStreamResponse txn s.conn.streamId

def refusalCodes : Role → String × String
  | .publish => ("NetStream.Publish.BadName", "NetStream.Publish.BadConnection")
  | .play => ("NetStream.Play.Failed", "NetStream.Play.BadConnection")

def readStreamName (role : Role) (name : Option String) : ConnM (Option String) := do
  let s ← get
  let (code, noStreamCode) := refusalCodes role
  match name with
  | none => do
    sendOnStatus 0 "error" code "Invalid stream name"
    pure none
  | some name =>
    if name = "" then do
      sendOnStatus 0 "error" code "Empty stream name"
      pure none
    else if s.conn.currentStream.isNone then do
      sendOnStatus 0 "error" noStreamCode "No stream created"
      pure none
    else pure (some name)

def requestRole (h : Host) (role : Role) (name : String) : ConnM Unit := do
  let s ← get
  if (s.conn.pendingAuth.get role).isSome ∨ s.conn.authSealed.get role then sendDenied role
  else
    match h.decision role s.conn name with
    | .allow => completeAuthorized h role name
    | .deny => sendDenied role
    | .pending requestId =>
      if requestId ∈ s.conn.resolvedAuthIds.get role then sendDenied role
      else modifyConn (fun c => { c with
        pendingAuth := c.pendingAuth.set role (some ⟨name, h.now, requestId⟩) })

def handleRequest (h : Host) (role : Role) (name : Option String) : ConnM Unit := do
  match ← readStreamName role name with
  | none => pure ()
  | some name => requestRole h role name

def teardownStream (h : Host) (eof : Option UInt32) : ConnM Unit := do
  let s ← get
  modify Session.evictActivePublishRoute
  modifyConn (fun c => c.endRole h.now s.conn.isActive)
  match eof with
  | none => pure ()
  | some sid => do
    let _ ← attempt (sendStreamLifecycleEof sid)
    pure ()

/-- Clear the routes a host lets this peer release, whoever owns them. -/
def Session.releaseStream (h : Host) (name : String) (s : Session) : Session :=
  let c := s.conn
  if h.onReleaseStream.any (fun cb => cb c.connId c.app name) ∧ c.publishRoutes then
    let routes := s.routes.forceRelease c.app name
    if c.relayKey ≠ "" ∧ c.relayKey ≠ name ∧ ¬ c.isPlaying then
      { s with routes := routes.forceRelease c.app c.relayKey }
    else { s with routes }
  else s

def handlePause (h : Host) (flag : Bool) : ConnM Unit := do
  modifyConn (fun c => c.setPaused h.now flag)
  let s ← get
  if flag then sendOnStatus s.conn.streamId "status" "NetStream.Pause.Notify" "Paused"
  else sendOnStatus s.conn.streamId "status" "NetStream.Unpause.Notify" "Unpaused"

def Stream.setReceive (s : Stream) (frameType : FrameType) (flag : Bool) : Stream :=
  if frameType = .audio then { s with receiveAudio := flag } else { s with receiveVideo := flag }

def Conn.setReceive (c : Conn) (frameType : FrameType) (flag : Bool) : Conn :=
  { c with currentStream := c.currentStream.map (fun s => s.setReceive frameType flag) }

def handleCommand (h : Host) : Command → ConnM Unit
  | .connect request => handleConnect request
  | .createStream transactionId parsed => handleCreateStream h transactionId parsed
  | .publish name => handleRequest h .publish name
  | .play name => handleRequest h .play name
  | .fcUnpublish | .deleteStream => do
    let s ← get
    teardownStream h (s.conn.currentStream.map Stream.streamId)
  | .fcPublish => pure ()
  | .releaseStream none => pure ()
  | .releaseStream (some name) =>
    if name = "" then pure () else modify (fun s => s.releaseStream h name)
  | .pause none => pure ()
  | .pause (some flag) => handlePause h flag
  | .seek => do
    let s ← get
    sendOnStatus s.conn.streamId "status" "NetStream.Seek.Notify" "Seeking"
  | .receiveAudio none | .receiveVideo none => pure ()
  | .receiveAudio (some flag) => modifyConn (fun c => c.setReceive .audio flag)
  | .receiveVideo (some flag) => modifyConn (fun c => c.setReceive .video flag)
  | .closeStream target => do
    let s ← get
    let current := s.conn.currentStream.map Stream.streamId
    let targetId := (target.orElse (fun _ => current)).getD 0
    if current = some targetId then teardownStream h (some targetId) else pure ()
  | .unknown => pure ()

end LibRtmp
