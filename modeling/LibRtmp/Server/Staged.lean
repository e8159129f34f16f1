import LibRtmp.Lib.Threads
import LibRtmp.Session.Timers
import LibRtmp.Server.Relay

namespace LibRtmp

namespace Conn

def mediaChunkSize (c : Conn) : Nat := if c.activeChunkSize = 0 then 128 else c.activeChunkSize

def mediaStreamId (c : Conn) : UInt32 := (c.currentStream.map Stream.streamId).getD 1

def sendFrame (c : Conn) (frameType : FrameType) (timestamp : UInt32) (payload : List UInt8) :
    Except ErrorCode Unit × Conn :=
  match (writeMediaMessage c.mediaOutHeaders c.compactMediaHeaders
      ⟨frameType, c.mediaStreamId, timestamp⟩ payload c.mediaChunkSize).on c.sendBuffer with
  | (.error e, out) => (.error e, { c with sendBuffer := out })
  | (.ok tracker, out) =>
    (.ok (), { c with
      sendBuffer := out
      mediaOutHeaders := tracker
      mediaBytesSent := satAdd c.mediaBytesSent payload.length })

def sendEncodedMediaBody (c : Conn) (frameType : FrameType) (timestamp : UInt32) (payloadLen : Nat)
    (body : List UInt8) : Except ErrorCode Unit × Conn :=
  match (writeMediaMessageWithBody c.mediaOutHeaders c.compactMediaHeaders
      ⟨frameType, c.mediaStreamId, timestamp⟩ payloadLen body).on c.sendBuffer with
  | (.error e, out) => (.error e, { c with sendBuffer := out })
  | (.ok tracker, out) =>
    (.ok (), { c with
      sendBuffer := out
      mediaOutHeaders := tracker
      mediaBytesSent := satAdd c.mediaBytesSent payloadLen })

def canStageMedia (c : Conn) : Bool :=
  c.sendBuffer.available == 0 && c.clientFd.isSome && c.transport.any (fun t => !t.isTls)

/-- Commit the first-chunk header for a body that is sent later; returns its length. -/
def stageEncodedMediaBody (c : Conn) (frameType : FrameType) (timestamp : UInt32)
    (payloadLen bodyLen : Nat) (headers : Buffer) : Except ErrorCode Nat × Conn × Buffer :=
  match c.mediaOutHeaders.choose c.compactMediaHeaders frameType c.mediaStreamId timestamp
      payloadLen with
  | .error e => (.error e, c, headers)
  | .ok header =>
    match (reserveRoom header.encodedLen >>= fun _ => header.write).on headers with
    | (.error e, headers) => (.error e, c, headers)
    | (.ok _, headers) =>
      (.ok header.encodedLen, { c with
        mediaOutHeaders := c.mediaOutHeaders.commit header
        mediaBytesSent := satAdd c.mediaBytesSent payloadLen
        stagedMediaBytes := satAdd c.stagedMediaBytes (header.encodedLen + bodyLen) }, headers)

end Conn

def advanceParts : List (List UInt8) → Nat → Nat → List (List UInt8) × Nat
  | [], offset, _ => ([], offset)
  | part :: parts, offset, sent =>
    if sent = 0 then (part :: parts, offset)
    else if sent < part.length - offset then (part :: parts, offset + sent)
    else advanceParts parts 0 (sent - (part.length - offset))

def sendParts : Socket → List (List UInt8) → Nat →
    Except ErrorCode Unit × List UInt8 × List (List UInt8) × Nat
  | _, [], offset => (.ok (), [], [], offset)
  | [], parts, offset => (.ok (), [], parts, offset)
  | .error e :: _, parts, offset => (.error e, [], parts, offset)
  | .ok n :: socket, parts, offset =>
    let offered := parts.flatten.drop offset
    let sent := min n offered.length
    if sent = 0 then (.ok (), [], parts, offset)
    else
      let (parts, next) := advanceParts parts offset sent
      let (result, taken, parts, offset) := sendParts socket parts next
      (result, offered.take sent ++ taken, parts, offset)

def writeParts : List (List UInt8) → WriteM Unit
  | [] => pure ()
  | part :: parts => do
    writeAll part
    writeParts parts

def Conn.sendStagedMedia (c : Conn) (socket : Socket) (parts : List (List UInt8)) :
    Except ErrorCode Unit × Conn × List UInt8 :=
  let c := { c with stagedMediaBytes := 0 }
  let socket := if c.transport.isSome then socket else []
  match sendParts socket parts 0 with
  | (.error e, taken, _, _) => (.error e, c, taken)
  | (.ok _, taken, [], _) => (.ok (), c, taken)
  | (.ok _, taken, part :: parts, offset) =>
    let rest := part.drop offset :: parts
    match (reserveRoom rest.flatten.length >>= fun _ => writeParts rest).on c.sendBuffer with
    | (result, out) => (result, { c with sendBuffer := out }, taken)

structure StagedRelayMessage where
  headerStart : Nat
  headerEnd : Nat
  body : Nat

structure StagedBody where
  key : Nat × Nat
  bytes : Buffer
  staged : Bool

/-- Bodies shared by all players of a chunk size, the headers, and each player's messages. -/
structure StagedRelayMedia where
  bodies : List StagedBody := []
  spare : Option Buffer := none
  headers : Buffer := .new
  messages : Threads StagedRelayMessage := {}

namespace StagedRelayMedia

def position (bodies : List StagedBody) (key : Nat × Nat) : Option Nat :=
  (bodies.reverse.findIdx? (fun b => b.key == key)).map (fun i => bodies.length - 1 - i)

def bodyFor (m : StagedRelayMedia) (frameIndex : Nat) (frame : RelayFrame) (chunkSize : Nat) :
    Option Nat × StagedRelayMedia :=
  let key := (frameIndex, chunkSize)
  match position m.bodies key with
  | some i => (some i, m)
  | none =>
    match (encodeMediaBody frame.frameType frame.timestamp frame.payload chunkSize).on
        (m.spare.getD .new) with
    | (.error _, _) => (none, { m with spare := none })
    | (.ok _, body) =>
      (some m.bodies.length,
        { m with spare := none, bodies := m.bodies ++ [⟨key, body, false⟩] })

/-- Drop the bodies at the end of the arena that no staged message uses. -/
def releaseUnstaged : List StagedBody → Option Buffer → List StagedBody × Option Buffer
  | [], spare => ([], spare)
  | b :: bs, spare => if b.staged then (b :: bs, spare) else releaseUnstaged bs (some b.bytes.reset)

def releaseUnstagedBodies (m : StagedRelayMedia) : StagedRelayMedia :=
  let (kept, spare) := releaseUnstaged m.bodies.reverse m.spare
  { m with bodies := kept.reverse, spare }

def stage (m : StagedRelayMedia) (conn body headerLen : Nat) (headers : Buffer) :
    StagedRelayMedia :=
  let headerStart := m.headers.available
  { m with
    headers
    bodies := m.bodies.modify body (fun b => { b with staged := true })
    messages := m.messages.push conn ⟨headerStart, headerStart + headerLen, body⟩ }

def partsOf (m : StagedRelayMedia) (msg : StagedRelayMessage) : List (List UInt8) :=
  [(m.headers.peek.take msg.headerEnd).drop msg.headerStart,
    ((m.bodies[msg.body]?).map (fun b => b.bytes.peek)).getD []]

def parts (m : StagedRelayMedia) (conn : Nat) : List (List UInt8) :=
  (m.messages.items conn).flatMap m.partsOf

end StagedRelayMedia

end LibRtmp
