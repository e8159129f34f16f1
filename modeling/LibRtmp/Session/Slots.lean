import LibRtmp.Lib.Runs
import LibRtmp.Session.Standing

namespace LibRtmp

namespace Conn

def createsStream (c : Conn) : Command → Bool
  | .createStream (some _) true => ConnState.appConnected ≤ c.state
  | _ => false

def tearsDown (c : Conn) : Command → Bool
  | .fcUnpublish | .deleteStream => true
  | .closeStream target =>
    let current := c.currentStream.map Stream.streamId
    current = some ((target.orElse (fun _ => current)).getD 0)
  | _ => false

end Conn

/-- A connection, and whether a `createStream` has succeeded since the last teardown. -/
structure LiveStream where
  conn : Conn
  live : Bool := false

namespace LiveStream

/-- One act on the connection. Only a `createStream` that succeeds gives out an id. -/
def turn (codec : Codec) (l : LiveStream) (t : Routes × ConnAct) : LiveStream :=
  let conn := l.conn.turn codec t.1 t.2
  { conn
    live :=
      if conn.nextStreamId ≠ l.conn.nextStreamId then true
      else if t.2.command.any l.conn.tearsDown then false
      else l.live }

/-- The act creates a stream while the connection still holds one that was torn down. -/
def recreates (l : LiveStream) (act : ConnAct) : Bool :=
  !l.live && l.conn.currentStream.isSome && act.command.any l.conn.createsStream

def Counted (l : LiveStream) : Prop := l.conn.activeStreamCount = if l.live then 1 else 0

instance (l : LiveStream) : Decidable l.Counted := inferInstanceAs (Decidable (_ = _))

end LiveStream

end LibRtmp
