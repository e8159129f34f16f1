import LibRtmp.Ertmp.Caps

namespace LibRtmp.Ertmp

def videoFourccInfoMapNeeded (map : VideoFourCcInfoMap) : Nat :=
  4 + (map.map (fun e => if e.1.a = 0x2A then 7 else 10)).sum

def countedName (name : List UInt8) : List UInt8 := Bytes.toBe 2 name.length ++ name

def videoFourccInfoMapWrite (map : VideoFourCcInfoMap) (room : Nat) : List UInt8 :=
  if room < videoFourccInfoMapNeeded map then []
  else
    Bytes.toBe 4 map.length ++
      map.flatMap (fun e => countedName (fourccEntryBytes e.1) ++ Bytes.toBe 4 e.2.toNat)

/-! The two layouts. -/

def keysOnly (map : VideoFourCcInfoMap) : List UInt8 :=
  Bytes.toBe 4 map.length ++ map.flatMap (fun e => countedName (fourccEntryBytes e.1))

structure MapRecord where
  key : List UInt8
  extra : List UInt8

namespace MapRecord

def bytes (r : MapRecord) : List UInt8 := countedName r.key ++ r.extra

structure Of (size : Nat) (r : MapRecord) : Prop where
  key : r.key = [0x2A] ∨ r.key.length = 4
  extra : r.extra.length = size

structure Probed (size : Nat) (r : MapRecord) : Prop where
  key : r.key.length = 1 ∨ r.key.length = 4
  extra : r.extra.length = size

def entry (legacyKeyOnly : Bool) (r : MapRecord) : Option (FourCc × UInt32) :=
  (fourccEntry r.key).map (fun cc =>
    (cc, if legacyKeyOnly then fourCcInfoAll else u32OfBe r.extra))

end MapRecord

def maskSize (legacyKeyOnly : Bool) : Nat := if legacyKeyOnly then 0 else 4

/-- The wildcard, or a code that does not look like it. -/
def PlainEntry (cc : FourCc) : Prop := cc = wildcardEntry ∨ cc.a ≠ 0x2A

end LibRtmp.Ertmp
