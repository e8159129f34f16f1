import LibRtmp.Session.Authorize

namespace LibRtmp

def rtmpSessionSetupTimeout : Nat := 10000
def publishMediaRequiredTimeout : Nat := 2000

/-- An error, or how many bytes it takes; no more once the list is used up. -/
abbrev Socket := List (Except ErrorCode Nat)

def drainTo : Socket → Buffer → Except ErrorCode Unit × Buffer
  | [], out => (.ok (), out)
  | .error e :: _, out => if out.available = 0 then (.ok (), out) else (.error e, out)
  | .ok n :: socket, out =>
    let sent := min n out.available
    if sent = 0 then (.ok (), out) else drainTo socket (out.drain sent)

namespace Conn

def receivedMediaInCurrentEpoch (c : Conn) : Bool := c.mediaBytesReceived > c.mediaBytesAtEpochStart

def publishMediaSquatExpired (c : Conn) (now : Nat) : Bool :=
  !c.receivedMediaInCurrentEpoch && c.injectedMediaBytes == 0 &&
    decide (now - c.sessionSetupStarted ≥ publishMediaRequiredTimeout)

/-- The peer has held its slot too long without an active role or without media. -/
def sessionSetupTimedOut (c : Conn) (now : Nat) : Bool :=
  if c.pendingAuth.publish.isSome ∨ c.pendingAuth.play.isSome then false
  else
    match c.currentStream with
    | none =>
      if c.claimedPublishRoute.isSome then c.publishMediaSquatExpired now
      else decide (now - c.sessionSetupStarted ≥ rtmpSessionSetupTimeout)
    | some stream =>
      if stream.isPublishing ∨ c.claimedPublishRoute.isSome then c.publishMediaSquatExpired now
      else if now - c.sessionSetupStarted < rtmpSessionSetupTimeout then false
      else if stream.isPlaying then !(!stream.paused && decide (c.mediaBytesSent > 0))
      else true

/-- Ask again for a replay that the cooldown held back, once it is over. -/
def rearmDeferredInitReplay (c : Conn) (now : Nat) : Conn :=
  if ¬ c.initReplayDeferred then c
  else if c.needsInitFrames then { c with initReplayDeferred := false }
  else if c.lastInitReplayRequest.any (fun last => now - last < initReplayCooldown) then c
  else
    { c with
      lastInitReplayRequest := some now, needsInitFrames := true, initReplayDeferred := false }

def flush (c : Conn) (socket : Socket) : Except ErrorCode Unit × Conn :=
  if c.clientFd.isNone ∨ c.sendBuffer.available = 0 ∨ c.transport.isNone then (.ok (), c)
  else
    match drainTo socket c.sendBuffer with
    | (.error e, out) => (.error e, { c with sendBuffer := out })
    | (.ok _, out) =>
      (.ok (), { c with sendBuffer := if out.available = 0 then out.reset else out })

end Conn

end LibRtmp
