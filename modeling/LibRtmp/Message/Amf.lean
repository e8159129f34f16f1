import LibRtmp.Lib.Bytes

namespace LibRtmp

def f64OfNat (n : Nat) : UInt64 :=
  if n = 0 then 0
  else
    let exponent := Nat.log2 n
    UInt64.ofNat ((1023 + exponent) * 2 ^ 52 + (n - 2 ^ exponent) * 2 ^ (52 - exponent))

example : (f64OfNat 1, f64OfNat 31) = (0x3FF0000000000000, 0x403F000000000000) := by decide

/-! Encoders of the AMF0 values that replies are made of. A number is given by its bits. -/
namespace Amf0

def objectKey (key : String) : List UInt8 :=
  Bytes.toBe 2 key.utf8ByteSize ++ key.toUTF8.data.toList

def string (s : String) : List UInt8 := 0x02 :: objectKey s

def number (bits : UInt64) : List UInt8 := 0x00 :: Bytes.toBe 8 bits.toNat

def null : List UInt8 := [0x05]

def objectBegin : List UInt8 := [0x03]

def objectEnd : List UInt8 := [0x00, 0x00, 0x09]

end Amf0

def statusObject (level code description : String) : List UInt8 :=
  Amf0.objectBegin ++ Amf0.objectKey "level" ++ Amf0.string level ++
    Amf0.objectKey "code" ++ Amf0.string code ++
    Amf0.objectKey "description" ++ Amf0.string description ++ Amf0.objectEnd

def buildOnStatus (level code description : String) : List UInt8 :=
  Amf0.string "onStatus" ++ Amf0.number 0 ++ Amf0.null ++ statusObject level code description

def buildError (transactionId : UInt64) (code description : String) : List UInt8 :=
  Amf0.string "_error" ++ Amf0.number transactionId ++ Amf0.null ++
    statusObject "error" code description

def buildCreateStreamResult (transactionId streamId : UInt64) : List UInt8 :=
  Amf0.string "_result" ++ Amf0.number transactionId ++ Amf0.null ++ Amf0.number streamId

def buildConnectResult (transactionId objectEncoding : UInt64) (caps : List UInt8) : List UInt8 :=
  Amf0.string "_result" ++ Amf0.number transactionId ++
    (Amf0.objectBegin ++ Amf0.objectKey "fmsVer" ++ Amf0.string "FMS/3,0,1,123" ++
      Amf0.objectKey "capabilities" ++ Amf0.number (f64OfNat 31) ++
      Amf0.objectKey "mode" ++ Amf0.number (f64OfNat 1) ++ Amf0.objectEnd) ++
    (Amf0.objectBegin ++ Amf0.objectKey "level" ++ Amf0.string "status" ++
      Amf0.objectKey "code" ++ Amf0.string "NetConnection.Connect.Success" ++
      Amf0.objectKey "description" ++ Amf0.string "Connection succeeded." ++
      Amf0.objectKey "objectEncoding" ++ Amf0.number objectEncoding ++ caps ++ Amf0.objectEnd)

end LibRtmp
