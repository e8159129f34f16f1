import LibRtmp.Buffer.Read

namespace LibRtmp

open Actions

inductive Amf0Type where
  | number | boolean | string | object | movieclip | null | undefined | reference | ecmaArray
  | objectEnd | strictArray | date | longString | unsupported | recordset | xmlDoc | typedObject
  | avmplus
  deriving DecidableEq, Repr

namespace Amf0Type

def marker : Amf0Type → UInt8
  | .number => 0x00
  | .boolean => 0x01
  | .string => 0x02
  | .object => 0x03
  | .movieclip => 0x04
  | .null => 0x05
  | .undefined => 0x06
  | .reference => 0x07
  | .ecmaArray => 0x08
  | .objectEnd => 0x09
  | .strictArray => 0x0A
  | .date => 0x0B
  | .longString => 0x0C
  | .unsupported => 0x0D
  | .recordset => 0x0E
  | .xmlDoc => 0x0F
  | .typedObject => 0x10
  | .avmplus => 0x11

def ofMarker (b : UInt8) : Option Amf0Type :=
  match b.toNat with
  | 0x00 => some .number
  | 0x01 => some .boolean
  | 0x02 => some .string
  | 0x03 => some .object
  | 0x04 => some .movieclip
  | 0x05 => some .null
  | 0x06 => some .undefined
  | 0x07 => some .reference
  | 0x08 => some .ecmaArray
  | 0x09 => some .objectEnd
  | 0x0A => some .strictArray
  | 0x0B => some .date
  | 0x0C => some .longString
  | 0x0D => some .unsupported
  | 0x0E => some .recordset
  | 0x0F => some .xmlDoc
  | 0x10 => some .typedObject
  | 0x11 => some .avmplus
  | _ => none

end Amf0Type

namespace Amf0

def readU8 : ReadM UInt8 := do
  let d ← readBytes .io 1
  pure (d.headD 0)

def readU16 : ReadM Nat := readBe .io 2

def readU32 : ReadM Nat := readBe .io 4

def readDouble : ReadM Nat := readBe .io 8

def readType : ReadM Amf0Type := do
  let t ← readU8
  match Amf0Type.ofMarker t with
  | some ty => pure ty
  | none => throw .amf

def readNumber : ReadM Nat := readDouble

/-- A length-prefixed string shorter than `limit`, after its marker. -/
def readStringOf (ty : Amf0Type) (readLen : ReadM Nat) (limit : Nat) : ReadM (List UInt8) := do
  let t ← readU8
  if t ≠ ty.marker then throw .amf
  else do
    let len ← readLen
    if len ≥ limit then throw .amf else readBytes .amf len

def readString (limit : Nat) : ReadM (List UInt8) := readStringOf .string readU16 limit

def readLongString (limit : Nat) : ReadM (List UInt8) := readStringOf .longString readU32 limit

def readObjectBegin : ReadM Unit := do
  let t ← readU8
  if t ≠ Amf0Type.object.marker then throw .amf else pure ()

def readObjectKey (limit : Nat) : ReadM (List UInt8) := do
  let len ← readU16
  if len ≥ limit then throw .amf else readBytes .amf len

def objectEndMarker : List UInt8 := [0x00, 0x00, 0x09]

def isObjectEnd (b : Buffer) : Bool := b.peek.take 3 == objectEndMarker

def maxSkipDepth : Nat := 32
def maxObjectKeys : Nat := 256

def skipItems (skip : Amf0Type → ReadM Unit) : Nat → ReadM Unit
  | 0 => pure ()
  | count + 1 => do
    let ty ← readType
    skip ty
    skipItems skip count

def unlessEnd (more : ReadM Unit) : ReadM Unit := do
  let b ← get
  if isObjectEnd b then do
    let _ ← readBytes .io 3
    pure ()
  else more

def skipMembers (skip : Amf0Type → ReadM Unit) : Nat → ReadM Unit
  | 0 => unlessEnd (throw .amf)
  | keys + 1 => unlessEnd (do
    let klen ← readU16
    dropBytes .io klen
    let ty ← readType
    skip ty
    skipMembers skip keys)

def skipScalar : Amf0Type → ReadM Unit
  | .number => do
    let _ ← readDouble
    pure ()
  | .boolean => do
    let _ ← readU8
    pure ()
  | .string => do
    let len ← readU16
    dropBytes .io len
  | .longString => do
    let len ← readU32
    dropBytes .io len
  | .xmlDoc => do
    let len ← readU32
    dropBytes .io len
  | .date => dropBytes .io 10
  | .reference => dropBytes .io 2
  | .null | .undefined | .movieclip => pure ()
  | _ => throw .unsupported

/-- Skip a value whose marker has been read, with `room` more levels to open. -/
def skipValueDepth : Nat → Amf0Type → ReadM Unit
  | room, .strictArray =>
    match room with
    | 0 => throw .amf
    | room + 1 => do
      let count ← readU32
      if count > maxObjectKeys then throw .amf else skipItems (skipValueDepth room) count
  | room, .object =>
    match room with
    | 0 => throw .amf
    | room + 1 => skipMembers (skipValueDepth room) maxObjectKeys
  | room, .ecmaArray =>
    match room with
    | 0 => throw .amf
    | room + 1 => do
      let _ ← readU32
      skipMembers (skipValueDepth room) maxObjectKeys
  | room, .typedObject =>
    match room with
    | 0 => throw .amf
    | room + 1 => do
      let len ← readU16
      dropBytes .io len
      skipMembers (skipValueDepth room) maxObjectKeys
  | _, ty => skipScalar ty

def skipValue : ReadM Unit := do
  let ty ← readType
  skipValueDepth maxSkipDepth ty

end Amf0

end LibRtmp
