import LibRtmp.Amf.Read
import LibRtmp.Amf.Write

/-! The byte strings that are AMF0 values. -/
namespace LibRtmp.Amf0

/-- What follows the marker of a value that holds no other value. -/
inductive Scalar : Amf0Type → List UInt8 → Prop where
  | number {d : List UInt8} (h : d.length = 8) : Scalar .number d
  | boolean {d : List UInt8} (h : d.length = 1) : Scalar .boolean d
  | string {d : List UInt8} (h : d.length < 2 ^ 16) : Scalar .string (Bytes.toBe 2 d.length ++ d)
  | longString {d : List UInt8} (h : d.length < 2 ^ 32) :
    Scalar .longString (Bytes.toBe 4 d.length ++ d)
  | xmlDoc {d : List UInt8} (h : d.length < 2 ^ 32) : Scalar .xmlDoc (Bytes.toBe 4 d.length ++ d)
  | date {d : List UInt8} (h : d.length = 10) : Scalar .date d
  | reference {d : List UInt8} (h : d.length = 2) : Scalar .reference d
  | null : Scalar .null []
  | undefined : Scalar .undefined []
  | movieclip : Scalar .movieclip []

inductive Items (V : List UInt8 → Prop) : Nat → List UInt8 → Prop where
  | nil : Items V 0 []
  | cons {n : Nat} {d e : List UInt8} (h : V d) (t : Items V n e) : Items V (n + 1) (d ++ e)

inductive Members (V : List UInt8 → Prop) : Nat → List UInt8 → Prop where
  | nil : Members V 0 [0x00, 0x00, 0x09]
  | cons {n : Nat} {key d e : List UInt8} (hk : key.length < 2 ^ 16) (h : V d)
    (t : Members V n e) : Members V (n + 1) (Bytes.toBe 2 key.length ++ (key ++ (d ++ e)))

/-- What follows the marker of a value that holds others. -/
inductive Container (V : List UInt8 → Prop) : Amf0Type → List UInt8 → Prop where
  | strictArray {n : Nat} {d : List UInt8} (hn : n ≤ 256) (h : Items V n d) :
    Container V .strictArray (Bytes.toBe 4 n ++ d)
  | object {n : Nat} {d : List UInt8} (hn : n ≤ 256) (h : Members V n d) : Container V .object d
  | ecmaArray {n : Nat} {count d : List UInt8} (hc : count.length = 4) (hn : n ≤ 256)
    (h : Members V n d) : Container V .ecmaArray (count ++ d)
  | typedObject {n : Nat} {name d : List UInt8} (hc : name.length < 2 ^ 16) (hn : n ≤ 256)
    (h : Members V n d) : Container V .typedObject (Bytes.toBe 2 name.length ++ (name ++ d))

/-- What follows the marker of a value with containers nested at most `depth` deep. -/
def Body : Nat → Amf0Type → List UInt8 → Prop
  | 0, ty, d => Scalar ty d
  | depth + 1, ty, d =>
    Scalar ty d ∨ Container (fun v => ∃ ty e, v = ty.marker :: e ∧ Body depth ty e) ty d

def Value (depth : Nat) (v : List UInt8) : Prop :=
  ∃ ty e, v = Amf0Type.marker ty :: e ∧ Body depth ty e

mutual

inductive Tree where
  | number (bits : UInt64)
  | boolean (value : Bool)
  | null
  | undefined
  | string (s : String)
  | longString (s : String)
  | longStringBytes (data : List UInt8)
  | object (members : Fields)
  | ecmaArray (count : UInt32) (members : Fields)

inductive Fields where
  | nil
  | cons (key : String) (value : Tree) (members : Fields)

end

mutual

def Tree.write : Tree → WriteM Unit
  | .number bits => writeNumber bits
  | .boolean value => writeBoolean value
  | .null => writeNull
  | .undefined => writeUndefined
  | .string s => writeString s
  | .longString s => writeLongString s
  | .longStringBytes data => writeLongStringBytes data
  | .object members => do
    writeObjectBegin
    members.write
    writeObjectEnd
  | .ecmaArray count members => do
    writeEcmaArrayBegin count
    members.write
    writeObjectEnd

def Fields.write : Fields → WriteM Unit
  | .nil => pure ()
  | .cons key value members => do
    writeObjectKey key
    value.write
    members.write

end

def Fields.size : Fields → Nat
  | .nil => 0
  | .cons _ _ members => members.size + 1

mutual

/-- No object has more than 256 members, and they are nested at most `depth` deep. -/
def Tree.Fits : Nat → Tree → Prop
  | 0, .object _ => False
  | 0, .ecmaArray _ _ => False
  | depth + 1, .object members => members.size ≤ 256 ∧ members.Fits depth
  | depth + 1, .ecmaArray _ members => members.size ≤ 256 ∧ members.Fits depth
  | _, _ => True

def Fields.Fits : Nat → Fields → Prop
  | _, .nil => True
  | depth, .cons _ value members => value.Fits depth ∧ members.Fits depth

end

end LibRtmp.Amf0
