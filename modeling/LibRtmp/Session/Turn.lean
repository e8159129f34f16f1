import LibRtmp.Lib.History
import LibRtmp.Session.Media

namespace LibRtmp

open Actions History

inductive SessionEvent where
  | message (m : PeerMessage) (budget : Nat)
  | complete (role : Role) (requestId : Nat) (allow : Bool)
  | reap (timeout : Nat)

def SessionEvent.action (h : Host) : SessionEvent → ConnM Unit
  | .message m budget => do
    let _ ← handleMessage h m budget
    pure ()
  | .complete role requestId allow => completeAuthorization h role requestId allow
  | .reap timeout => do
    let _ ← reapTimedOutPendingAuth h timeout
    pure ()

structure Turn where
  host : Host
  routes : Routes
  event : SessionEvent

def Turn.run (t : Turn) (c : Conn) : Conn := ((t.event.action t.host).on ⟨c, t.routes⟩).2.conn

def Requests : Command → Role → String → Prop
  | .publish name, .publish, n => name = some n
  | .play name, .play, n => name = some n
  | _, _, _ => False

def Carries : PeerMessage → Role → String → Prop
  | .command command, role, name => Requests command role name
  | _, _, _ => False

@[mk_iff]
structure Admits (c : Conn) (role : Role) (name : String) : Prop where
  named : name ≠ ""
  stream : c.currentStream.isSome = true
  free : c.pendingAuth.get role = none
  unsealed : c.authSealed.get role = false

instance (c : Conn) (role : Role) (name : String) : Decidable (Admits c role name) :=
  decidable_of_iff' _ (admits_iff c role name)

/-- The three-state callback of each role is installed, and no C callback overrides it. -/
def Host.Installed (h : Host) : Prop :=
  ∀ role, h.cAuth.get role = none ∧ (h.auth.get role).isSome = true

/-- The turn puts a request to the callback of its role, and this is the answer. -/
def Turn.Asked (t : Turn) (c : Conn) (role : Role) (name : String)
    (answer : AuthorizationResult) : Prop :=
  ∃ m budget cb, t.event = .message m budget ∧ budget ≠ 0 ∧ Carries m role name ∧
    Admits c role name ∧ t.host.auth.get role = some cb ∧ cb c.connId c.app name = answer

def Stream.hasRole (s : Stream) : Role → Bool
  | .publish => s.isPublishing
  | .play => s.isPlaying

namespace Conn

structure Untouched (c : Conn) : Prop where
  stream : c.currentStream = none
  pending : ∀ role, c.pendingAuth.get role = none

def HoldsRole (c : Conn) (role : Role) (app name : String) : Prop :=
  c.app = app ∧ ∃ s ∈ c.currentStream, s.hasRole role = true ∧ s.name = name

instance (c : Conn) (role : Role) (app name : String) : Decidable (c.HoldsRole role app name) :=
  inferInstanceAs (Decidable (_ ∧ _))

def Waits (c : Conn) (role : Role) (requestId : Nat) : Prop :=
  ∃ p, c.pendingAuth.get role = some p ∧ p.requestId = requestId

def Relays (c : Conn) : Prop := c.pendingAuth.publish = none ∧ c.isPublishing = true

end Conn

/-- The callback allowed exactly this, or the host now allows the waiting request for it. -/
def Granted (e : Conn × Turn) (before : List (Conn × Turn)) (role : Role) (app name : String) :
    Prop :=
  e.1.app = app ∧ (e.2.Asked e.1 role name .allow ∨
    ∃ p, e.2.event = .complete role p.requestId true ∧ p.streamName = name ∧
      e.1.pendingAuth.get role = some p ∧
      Since (fun x _ => x.1.app = app ∧ x.2.Asked x.1 role name (.pending p.requestId))
        (fun x => x.1.pendingAuth.get role = some p) before)

def Settled (past : List (Conn × Turn)) (role : Role) (requestId : Nat) : Prop :=
  ∃ later e before name, past = later ++ e :: before ∧
    e.2.Asked e.1 role name (.pending requestId) ∧ ∃ x ∈ later, ¬ x.1.Waits role requestId

def Withdraws (c : Conn) : Command → Prop
  | .fcUnpublish | .deleteStream => True
  | .closeStream target => target = none ∨ target = c.currentStream.map Stream.streamId
  | .createStream transactionId parsed =>
    .appConnected ≤ c.state ∧ transactionId.isSome = true ∧ parsed = true ∧
      c.projectedStreamCount ≤ maxStreamsPerConn
  | _ => False

/-- What ends the wait of a request: a decision, the timeout, or a withdrawal. -/
def Turn.Ends (t : Turn) (c : Conn) (role : Role) (requestId : Nat) : Prop :=
  match t.event with
  | .complete r id _ => r = role ∧ id = requestId
  | .reap timeout => ∀ p, c.pendingAuth.get role = some p → timeout ≤ t.host.now - p.requestedAt
  | .message (.command command) budget => budget ≠ 0 ∧ Withdraws c command
  | .message _ _ => False

/-- Both callbacks stay installed, and no request id is returned twice for a role. -/
inductive Driven (start : Conn) : List (Conn × Turn) → Conn → Prop where
  | start : Driven start [] start
  | turn {past : List (Conn × Turn)} {c : Conn} (t : Turn) (h : Driven start past c)
    (installed : t.host.Installed)
    (fresh : ∀ role name id, t.Asked c role name (.pending id) →
      ∀ e ∈ past, ∀ n, ¬ e.2.Asked e.1 role n (.pending id)) :
    Driven start ((c, t) :: past) (t.run c)

end LibRtmp
