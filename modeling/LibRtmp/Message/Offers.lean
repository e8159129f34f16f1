import LibRtmp.Ertmp.InfoMap
import LibRtmp.Message.Connect

/-! What a client offers, told from the bytes of its capabilities. -/
namespace LibRtmp.Ertmp

def stringBytes (s : List UInt8) : List UInt8 := Amf0Type.string.marker :: countedName s

/-- The codec strings at the front of a FourCC list: an array, or a list in binary form. -/
inductive ListOffers : List UInt8 → List (List UInt8) → Prop where
  | nothing (v : List UInt8) : ListOffers v []
  | array {n : Nat} {codes : List (List UInt8)} (h : codes.length ≤ n) (rest : List UInt8) :
    ListOffers (Amf0Type.strictArray.marker ::
      (Bytes.toBe 4 n ++ (codes.flatMap stringBytes ++ rest))) codes
  | blob {n : Nat} {data rest : List UInt8} {codes : List (List UInt8)} (h : codes.length ≤ n)
    (hd : data = Bytes.toBe 4 n ++ (codes.flatMap countedName ++ rest)) (tail : List UInt8) :
    ListOffers (Amf0Type.longString.marker :: (Bytes.toBe 4 data.length ++ (data ++ tail))) codes

def numberMember (m : List UInt8 × Nat) : List UInt8 :=
  countedName m.1 ++ Amf0Type.number.marker :: Bytes.toBe 8 m.2

def maskOfBits (bits : Nat) : UInt32 := UInt32.ofNat ((Double.toNatUpTo 4294967295 bits).getD 0)

inductive MapOffers : List UInt8 → List (List UInt8 × UInt32) → Prop where
  | nothing (v : List UInt8) : MapOffers v []
  | array {n : Nat} {codes : List (List UInt8)} (h : codes.length ≤ n) (rest : List UInt8) :
    MapOffers (Amf0Type.strictArray.marker ::
      (Bytes.toBe 4 n ++ (codes.flatMap stringBytes ++ rest)))
      (codes.map (fun c => (c, fourCcInfoAll)))
  | blob {n : Nat} {data rest : List UInt8} {rs : List MapRecord} (legacyKeyOnly : Bool)
    (h : rs.length ≤ n) (hrs : ∀ r ∈ rs, r.extra.length = maskSize legacyKeyOnly)
    (hd : data = Bytes.toBe 4 n ++ (rs.flatMap MapRecord.bytes ++ rest)) (tail : List UInt8) :
    MapOffers (Amf0Type.longString.marker :: (Bytes.toBe 4 data.length ++ (data ++ tail)))
      (rs.map (fun r => (r.key, if legacyKeyOnly then fourCcInfoAll else u32OfBe r.extra)))
  | object (members : List (List UInt8 × Nat)) (rest : List UInt8) :
    MapOffers (Amf0Type.object.marker :: (members.flatMap numberMember ++ rest))
      (members.map (fun m => (m.1, maskOfBits m.2)))
  | ecmaArray {count : List UInt8} (h : count.length = 4) (members : List (List UInt8 × Nat))
    (rest : List UInt8) :
    MapOffers (Amf0Type.ecmaArray.marker :: (count ++ (members.flatMap numberMember ++ rest)))
      (members.map (fun m => (m.1, maskOfBits m.2)))

inductive SendsMask : List UInt8 → UInt32 → Prop where
  | number {bits n : Nat} (h : Double.toInt? bits = some (n : Int)) (hn : n ≤ 4294967295)
    (rest : List UInt8) :
    SendsMask (Amf0Type.number.marker :: (Bytes.toBe 8 bits ++ rest)) (UInt32.ofNat n)
  | longString (e : List UInt8) :
    SendsMask (Amf0Type.longString.marker :: e) capsExMaskServerDefault
  | object (e : List UInt8) : SendsMask (Amf0Type.object.marker :: e) capsExMaskServerDefault

def isStarred (code : List UInt8) : Bool := 4 ≤ code.length && code.head? == some 0x2A

def ConnectMember.Accepted (field : CapField) (m : ConnectMember) : Prop :=
  m.field = some field ∧ m.rejected = false

/-- What was read of a `connect`: the strings of one FourCC list, and the keys of one info map. -/
structure OffersRead (members : List ConnectMember) (codes : List (List UInt8))
    (keys : List (List UInt8 × UInt32)) (client : ConnectInfo) : Prop where
  list : if client.hasFourCcList then
      (∃ m ∈ members, m.field = some .fourCcList ∧ ListOffers m.value codes) ∧
        client.fourCcList = codes.filterMap fourccEntry
    else codes = []
  map : if client.hasVideoFourCcInfoMap then
      (∃ m ∈ members, m.field = some .videoFourCcInfoMap ∧ MapOffers m.value keys) ∧
        client.videoFourCcInfoMap =
          keys.filterMap (fun k => (fourccEntry k.1).map (fun cc => (cc, k.2)))
    else keys = []

structure GrantsOffered (members : List ConnectMember) (codes : List (List UInt8))
    (keys : List (List UInt8 × UInt32)) (caps : NegotiatedCaps) : Prop where
  list : (caps.fourCcList.map fourccEntryBytes).Sublist (codes.map (fun c => c.take 4))
  listSupported : ∀ cc ∈ caps.fourCcList, fourCcSupported (fourccEntryBytes cc) = true
  map : (caps.videoFourCcInfoMap.map (fun e => (fourccEntryBytes e.1, e.2))).Sublist
    (keys.map (fun k => (k.1.take 4, k.2 &&& fourCcInfoCanForward)))
  mapSupported : ∀ e ∈ caps.videoFourCcInfoMap,
    fourCcSupported (fourccEntryBytes e.1) = true ∧ e.2 ≠ 0
  mask : caps.capsExMask ≠ 0 → ∃ m ∈ members, m.Accepted .capsEx ∧
    ∃ mask, SendsMask m.value mask ∧ caps.capsExMask &&& mask = caps.capsExMask
  maskSupported : caps.capsExMask &&& (capsExMaskServerDefault ||| capsExMaskReconnect) =
    caps.capsExMask
  reconnect : caps.capsExMask &&& capsExMaskReconnect ≠ 0 → ∃ m ∈ members, m.Accepted .reconnect

end LibRtmp.Ertmp
