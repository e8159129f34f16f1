import LibRtmp.Buffer.Read

namespace LibRtmp

def maxSoNameBytes : Nat := 256
def maxSoEvents : Nat := 256
def maxSoEventDataBytes : Nat := 64 * 1024

inductive SharedObjectEventType where
  | use
  | release
  | requestChange
  | change
  | success
  | sendMessage
  | status
  | clear
  | remove
  | requestRemove
  | useSuccess
  | unknown (b : UInt8)
  deriving DecidableEq

namespace SharedObjectEventType

def fromByte (b : UInt8) : SharedObjectEventType :=
  match b.toNat with
  | 1 => .use
  | 2 => .release
  | 3 => .requestChange
  | 4 => .change
  | 5 => .success
  | 6 => .sendMessage
  | 7 => .status
  | 8 => .clear
  | 9 => .remove
  | 10 => .requestRemove
  | 11 => .useSuccess
  | _ => .unknown b

def toByte : SharedObjectEventType → UInt8
  | .use => 1
  | .release => 2
  | .requestChange => 3
  | .change => 4
  | .success => 5
  | .sendMessage => 6
  | .status => 7
  | .clear => 8
  | .remove => 9
  | .requestRemove => 10
  | .useSuccess => 11
  | .unknown b => b

/-- `unknown` stands for codes without a name only. -/
def Canonical : SharedObjectEventType → Prop
  | .unknown b => ¬ (1 ≤ b.toNat ∧ b.toNat ≤ 11)
  | _ => True

end SharedObjectEventType

structure SharedObjectEvent where
  eventType : SharedObjectEventType
  data : List UInt8
  deriving DecidableEq

structure SharedObjectMessage where
  name : String
  version : UInt32
  flags : UInt32
  events : List SharedObjectEvent
  deriving DecidableEq

structure SharedObjectMessage.Fits (msg : SharedObjectMessage) : Prop where
  name : msg.name.utf8ByteSize ≤ maxSoNameBytes
  events : msg.events.length ≤ maxSoEvents
  data : ∀ e ∈ msg.events, e.data.length ≤ maxSoEventDataBytes

namespace SharedObject

def readName : ReadM String := do
  let nameLen ← readBe .amf 2
  let b ← get
  if nameLen > maxSoNameBytes ∨ b.available < nameLen then throw .amf
  else do
    let nameBytes ← readBytes .amf nameLen
    match String.fromUTF8? ⟨⟨nameBytes⟩⟩ with
    | some name => pure name
    | none => throw .amf

def readEvent : ReadM SharedObjectEvent := do
  let tyByte ← readBytes .amf 1
  let eventLen ← readBe .amf 4
  let b ← get
  if eventLen > maxSoEventDataBytes ∨ b.available < eventLen then throw .amf
  else do
    let data ← readBytes .amf eventLen
    pure ⟨.fromByte (tyByte.headD 0), data⟩

def readEvents (allowed : Nat) : ReadM (List SharedObjectEvent) := do
  let b ← get
  if b.available > 0 then
    match allowed with
    | 0 => throw .amf
    | allowed + 1 => do
      let event ← readEvent
      let events ← readEvents allowed
      pure (event :: events)
  else pure []

def readMessage : ReadM SharedObjectMessage := do
  let name ← readName
  let version ← readBe .amf 4
  let flags ← readBe .amf 4
  let _reserved ← readBe .amf 4
  let events ← readEvents maxSoEvents
  pure ⟨name, .ofNat version, .ofNat flags, events⟩

def parse (data : List UInt8) (h : data.length ≤ isizeMax) :
    Except ErrorCode SharedObjectMessage :=
  (readMessage.on (.fromSlice data h)).1

def writeEvents : List SharedObjectEvent → WriteM Unit
  | [] => pure ()
  | event :: events =>
    if event.data.length > maxSoEventDataBytes then throw .amf
    else do
      writeAll [event.eventType.toByte]
      writeAll (Bytes.toBe 4 event.data.length)
      writeAll event.data
      writeEvents events

def write (msg : SharedObjectMessage) : WriteM Unit :=
  if msg.name.utf8ByteSize > maxSoNameBytes then throw .amf
  else if msg.events.length > maxSoEvents then throw .amf
  else do
    writeAll (Bytes.toBe 2 msg.name.utf8ByteSize)
    writeAll msg.name.toUTF8.data.toList
    writeAll (Bytes.toBe 4 msg.version.toNat)
    writeAll (Bytes.toBe 4 msg.flags.toNat)
    writeAll (Bytes.toBe 4 0)
    writeEvents msg.events

end SharedObject

end LibRtmp
