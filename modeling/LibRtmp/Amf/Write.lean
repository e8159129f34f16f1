import LibRtmp.Buffer.Write
import LibRtmp.Message.Amf

/-! The AMF0 writers. A double is given by its bits. -/
namespace LibRtmp.Amf0

def writeNumber (bits : UInt64) : WriteM Unit := do
  writeAll [0x00]
  writeAll (Bytes.toBe 8 bits.toNat)

def writeBoolean (value : Bool) : WriteM Unit := do
  writeAll [0x01]
  writeAll [if value then 1 else 0]

def writeNull : WriteM Unit := writeAll [0x05]

def writeUndefined : WriteM Unit := writeAll [0x06]

def writeString (s : String) : WriteM Unit :=
  if s.utf8ByteSize > 0xFFFF then throw .amf
  else do
    writeAll [0x02]
    writeAll (Bytes.toBe 2 s.utf8ByteSize)
    writeAll s.toUTF8.data.toList

def writeLongStringBytes (data : List UInt8) : WriteM Unit :=
  if data.length > 0xFFFFFFFF then throw .amf
  else do
    writeAll [0x0C]
    writeAll (Bytes.toBe 4 data.length)
    writeAll data

def writeLongString (s : String) : WriteM Unit := writeLongStringBytes s.toUTF8.data.toList

def writeObjectBegin : WriteM Unit := writeAll [0x03]

def writeObjectEnd : WriteM Unit := writeAll [0x00, 0x00, 0x09]

def writeObjectKey (key : String) : WriteM Unit :=
  if key.utf8ByteSize > 0xFFFF then throw .amf
  else do
    writeAll (Bytes.toBe 2 key.utf8ByteSize)
    writeAll key.toUTF8.data.toList

def writeEcmaArrayBegin (count : UInt32) : WriteM Unit := do
  writeAll [0x08]
  writeAll (Bytes.toBe 4 count.toNat)

end LibRtmp.Amf0
