import LibRtmp.Ertmp.Caps

namespace LibRtmp.Ertmp

open Actions Amf0

def maxConnectObjectKeys : Nat := 256

structure ConnectOutput where
  info : ConnectInfo := {}
  objectEncoding : Nat := 0
  deriving DecidableEq, Repr

def setInfo (f : ConnectInfo → ConnectInfo) (out : ConnectOutput) : ConnectOutput :=
  { out with info := f out.info }

inductive CapField where
  | fourCcList | capsEx | videoFourCcInfoMap | reconnect
  deriving DecidableEq, Repr

namespace CapField

def name : CapField → String
  | fourCcList => "fourCcList"
  | capsEx => "capsEx"
  | videoFourCcInfoMap => "videoFourCcInfoMap"
  | reconnect => "reconnect"

def ofKey (key : List UInt8) : Option CapField :=
  [fourCcList, capsEx, videoFourCcInfoMap, reconnect].find? (fun f =>
    key == f.name.toUTF8.data.toList)

def read : CapField → FillM ConnectOutput Unit
  | fourCcList => do
    into (fun out => out.info.fourCcList)
      (fun list => setInfo (fun info => { info with fourCcList := list })) readFourCcListAmf
    filling (setInfo (fun info => { info with hasFourCcList := true }))
  | capsEx => do
    into (fun out => out.info.capsEx)
      (fun caps => setInfo (fun info => { info with capsEx := caps })) readCapsExAmf
    filling (setInfo (fun info => { info with hasCapsEx := true }))
  | videoFourCcInfoMap => do
    into (fun out => out.info.videoFourCcInfoMap)
      (fun map => setInfo (fun info => { info with videoFourCcInfoMap := map }))
      readVideoFourccInfoMapAmf
    filling (setInfo (fun info => { info with hasVideoFourCcInfoMap := true }))
  | reconnect => do
    into (fun out => out.info.reconnect)
      (fun rc => setInfo (fun info => { info with reconnect := rc })) readReconnectAmf
    filling (setInfo (fun info => { info with hasReconnect := true }))

end CapField

def readNumberValue : ReadM Nat := do
  let ty ← readType
  if ty ≠ .number then throw .amf else readNumber

def readStringChecked (limit : Nat) (put : List UInt8 → ConnectInfo → ConnectInfo) :
    FillM ConnectOutput Unit := do
  let ty ← reading (readBytes .amf 1)
  if ty ≠ [Amf0Type.string.marker] then throw .amf
  else do
    let slen ← reading (readBe .amf 2)
    let s ← get
    if s.1.available < slen then throw .io
    else if slen ≥ limit then do
      modify (fun s => (s.1.drain slen, s.2))
      throw .amf
    else do
      let text ← reading (readBytes .amf slen)
      filling (setInfo (put (text.takeWhile (fun b => b != 0))))
      if text.contains 0 then throw .amf else pure ()

def readPlainText (key : List UInt8) : FillM ConnectOutput Unit :=
  if key = "app".toUTF8.data.toList then
    readStringChecked 256 (fun text info => { info with app := text })
  else if key = "tcUrl".toUTF8.data.toList then
    readStringChecked 512 (fun text info => { info with tcUrl := text })
  else if key = "pageUrl".toUTF8.data.toList then
    readStringChecked 512 (fun text info => { info with pageUrl := text })
  else if key = "swfUrl".toUTF8.data.toList then
    readStringChecked 512 (fun text info => { info with swfUrl := text })
  else if key = "flashVer".toUTF8.data.toList then
    readStringChecked 64 (fun text info => { info with flashVer := text })
  else reading skipValue

def toI32 (bits : Nat) : Int := Double.truncate (-2147483648) 2147483647 bits

def putPlainNumber (key : List UInt8) (bits : Nat) (out : ConnectOutput) : ConnectOutput :=
  if key = "audioCodecs".toUTF8.data.toList then
    setInfo (fun info => { info with audioCodecs := toI32 bits }) out
  else if key = "videoCodecs".toUTF8.data.toList then
    setInfo (fun info => { info with videoCodecs := toI32 bits }) out
  else if key = "objectEncoding".toUTF8.data.toList then { out with objectEncoding := bits }
  else out

def readPlainValue (key : List UInt8) (ty : Amf0Type) : FillM ConnectOutput Unit :=
  match ty with
  | .string => readPlainText key
  | .number => do
    let bits ← reading readNumberValue
    filling (putPlainNumber key bits)
  | _ => reading skipValue

def readConnectPlainField (key : List UInt8) : FillM ConnectOutput Unit := do
  let ty ← reading (peeking readType)
  readPlainValue key ty

/-- Read a capability; one that is malformed is skipped, from its marker on. -/
def readConnectErtmpField (key : List UInt8) : FillM ConnectOutput Bool :=
  match CapField.ofKey key with
  | none => pure false
  | some field => do
    let start ← get
    match ← attempt field.read with
    | .ok _ => pure true
    | .error _ => do
      modify (fun s => (start.1, s.2))
      reading skipValue
      pure true

def readConnectField (key : List UInt8) : FillM ConnectOutput Unit := do
  let known ← readConnectErtmpField key
  if known then pure () else readConnectPlainField key

def readConnectWithEncoding : FillM ConnectOutput Unit := do
  filling (fun _ => {})
  let name ← reading (readString 64)
  filling (setInfo (fun info => { info with name }))
  let transactionId ← reading readNumberValue
  filling (setInfo (fun info => { info with transactionId }))
  reading readObjectBegin
  readMembers readConnectField maxConnectObjectKeys

/-! The members of a command object, and what becomes of a malformed capability. -/

structure ConnectMember where
  key : List UInt8
  value : List UInt8

namespace ConnectMember

def bytes (m : ConnectMember) : List UInt8 := Bytes.toBe 2 m.key.length ++ (m.key ++ m.value)

def field (m : ConnectMember) : Option CapField := CapField.ofKey m.key

end ConnectMember

def connectPayload (name : List UInt8) (number : Nat) (members : List ConnectMember)
    (tail : List UInt8) : List UInt8 :=
  Amf0Type.string.marker :: (Bytes.toBe 2 name.length ++ name) ++
    (Amf0Type.number.marker :: Bytes.toBe 8 number ++
      (Amf0Type.object.marker :: (members.flatMap ConnectMember.bytes ++ (objectEndMarker ++ tail))))

def bufferOf (d : List UInt8) : Buffer :=
  if h : d.length ≤ isizeMax then .fromSlice d h else .new

def CapField.outcome (field : CapField) (value : List UInt8) : Except ErrorCode Unit × ConnectInfo :=
  let r := field.read.on (bufferOf value, {})
  (r.1, r.2.2.info)

def ConnectMember.rejected (m : ConnectMember) : Bool :=
  m.field.any (fun field => !(field.outcome m.value).1.isOk)

def lastOf (field : CapField) (members : List ConnectMember) : Option ConnectMember :=
  (members.filter (fun m => m.field = some field)).getLast?

def withoutRejected (members : List ConnectMember) : List ConnectMember :=
  members.filter (fun m => !m.rejected)

/-- No rejected member of the name comes after an accepted one of it. -/
def RejectedFirst (field : CapField) (members : List ConnectMember) : Prop :=
  members.Pairwise (fun m m' => m.field = some field → m'.field = some field →
    m.rejected = false → m'.rejected = false)

/-- The last member of the name and the last accepted one leave what comes to the same. -/
def Retains {α : Type} (negotiated : ConnectInfo → α) (field : CapField)
    (members : List ConnectMember) : Prop :=
  ∀ accepted ∈ lastOf field (withoutRejected members), ∀ last ∈ lastOf field members,
    negotiated (field.outcome last.value).2 = negotiated (field.outcome accepted.value).2

/-- The FourCC list and the info map that were accepted are still there after all members. -/
def RetainsCaps (members : List ConnectMember) : Prop :=
  Retains (fun info => negotiateFourCcList info.fourCcList) .fourCcList members ∧
  Retains (fun info => negotiateInfoMap info.videoFourCcInfoMap) .videoFourCcInfoMap members

def ConnectOutput.plain (out : ConnectOutput) : ConnectOutput where
  info := { out.info with
    fourCcList := [], capsEx := {}, videoFourCcInfoMap := [], reconnect := {}
    hasFourCcList := false, hasCapsEx := false, hasVideoFourCcInfoMap := false
    hasReconnect := false }
  objectEncoding := out.objectEncoding

end LibRtmp.Ertmp
