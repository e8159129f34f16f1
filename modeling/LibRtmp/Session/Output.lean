import LibRtmp.Lib.Actions
import LibRtmp.Message.Amf
import LibRtmp.Session.Routes

namespace LibRtmp

open Actions

abbrev ConnM := Action ErrorCode Session

def sending (w : Conn → WriteM Unit) : ConnM Unit := ExceptT.mk (fun s =>
  let (r, out) := (w s.conn).on s.conn.sendBuffer
  (r, { s with conn := { s.conn with sendBuffer := out } }))

def modifyConn (f : Conn → Conn) : ConnM Unit := modify (fun s => { s with conn := f s.conn })

def sendControl (ty : UInt8) (data : List UInt8) : ConnM Unit :=
  sending (fun c =>
    chunkWrite { csid := 2, msgLength := data.length, msgTypeId := ty } data data.length
      c.activeChunkSize)

def sendCommand (msgStreamId : UInt32) (amf : List UInt8) : ConnM Unit :=
  sending (fun c =>
    chunkWrite { csid := 3, msgLength := amf.length, msgTypeId := 0x14, msgStreamId } amf amf.length
      c.activeChunkSize)

def sendOnStatus (streamId : UInt32) (level code description : String) : ConnM Unit :=
  sendCommand streamId (buildOnStatus level code description)

def sendCommandError (transactionId : UInt64) (code description : String) : ConnM Unit :=
  sendCommand 0 (buildError transactionId code description)

def sendCreateStreamResponse (transactionId : UInt64) (streamId : UInt32) : ConnM Unit :=
  sendCommand 0 (buildCreateStreamResult transactionId (f64OfNat streamId.toNat))

def serverWindowAckSize : Nat := 2500000
def serverPeerBandwidth : Nat := 2500000
def peerBandwidthDynamic : UInt8 := 2

namespace Ertmp

def entryText (entry : FourCc) : Option String :=
  if entry.a = 0x2A then some "*" else String.fromUTF8? ⟨entry.bytes.toArray⟩

def writeFourCcListAmf (list : FourCcList) : List UInt8 :=
  0x0A :: Bytes.toBe 4 list.length ++
    list.flatMap (fun entry => Amf0.string ((entryText entry).getD "????"))

def writeVideoFourccInfoMapAmf (map : VideoFourCcInfoMap) : Except ErrorCode (List UInt8) := do
  let members ← map.mapM (fun entry =>
    match entryText entry.1 with
    | none => throw .amf
    | some key => pure (Amf0.objectKey key ++ Amf0.number (f64OfNat entry.2.toNat)))
  pure (Amf0.objectBegin ++ members.flatten ++ Amf0.objectEnd)

def writeReconnectAmf (rc : Reconnect) : List UInt8 :=
  0x0C :: Bytes.toBe 4 8 ++ Bytes.toBe 4 rc.replay.toNat ++ Bytes.toBe 4 rc.limit.toNat

def writeNegotiatedCaps (caps : NegotiatedCaps) : Except ErrorCode (List UInt8) := do
  let list := if caps.hasFourCcList ∧ caps.fourCcList ≠ [] then
    Amf0.objectKey "fourCcList" ++ writeFourCcListAmf caps.fourCcList else []
  let mask := if caps.hasCapsEx then
    Amf0.objectKey "capsEx" ++ Amf0.number (f64OfNat caps.capsExMask.toNat) else []
  let map ← if caps.hasVideoFourCcInfoMap ∧ caps.videoFourCcInfoMap ≠ [] then do
      let map ← writeVideoFourccInfoMapAmf caps.videoFourCcInfoMap
      pure (Amf0.objectKey "videoFourCcInfoMap" ++ map)
    else pure []
  let reconnect := if caps.hasReconnect then
    Amf0.objectKey "reconnect" ++ writeReconnectAmf caps.reconnect else []
  pure (list ++ mask ++ map ++ reconnect)

end Ertmp

/-- Server chunks use the announced size from here on. -/
def sendConnectResponse (transactionId : UInt64) (caps : Option Ertmp.NegotiatedCaps) :
    ConnM Unit := do
  sendControl 0x05 (Bytes.toBe 4 serverWindowAckSize)
  sendControl 0x06 (Bytes.toBe 4 serverPeerBandwidth ++ [peerBandwidthDynamic])
  let s ← get
  sendControl 0x01 (Bytes.toBe 4 s.conn.chunkSize)
  modifyConn (fun c => { c with activeChunkSize := c.chunkSize })
  match (caps.map Ertmp.writeNegotiatedCaps).getD (pure []) with
  | .error e => throw e
  | .ok fields =>
    sendCommand 0 (buildConnectResult transactionId s.conn.connectObjectEncoding fields)

def rtmpMsgUserControl : UInt8 := 0x04

def uctrlStreamBegin : Nat := 0
def uctrlStreamEof : Nat := 1
def uctrlSetBufferLength : Nat := 3
def uctrlPingResponse : Nat := 7

def sendUserControl (event : Nat) (params : List UInt32) : ConnM Unit :=
  sendControl rtmpMsgUserControl
    (Bytes.toBe 2 event ++ params.flatMap (fun p => Bytes.toBe 4 p.toNat))

def sendStreamLifecycleBegin (streamId : UInt32) : ConnM Unit := do
  sendUserControl uctrlStreamBegin [streamId]
  let s ← get
  sendUserControl uctrlSetBufferLength [streamId, s.conn.bufferLengthMs]

def sendStreamLifecycleEof (streamId : UInt32) : ConnM Unit :=
  sendUserControl uctrlStreamEof [streamId]

def sendDenied : Role → ConnM Unit
  | .publish => sendOnStatus 0 "error" "NetStream.Publish.BadName" "Publish not authorized"
  | .play => sendOnStatus 0 "error" "NetStream.Play.Failed" "Play not authorized"

end LibRtmp
