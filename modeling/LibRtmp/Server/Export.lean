import Mathlib.Data.List.DropRight
import LibRtmp.Lib.Runs
import LibRtmp.Lib.Suffixes
import LibRtmp.Server.Cache

namespace LibRtmp

/-- Copies of relayed frames for the integrator, the oldest at the front. -/
structure RelayExportBuffer where
  frames : List (RelayFrame × DeliveryHint) := []
  maxFrames : Nat
  maxBytes : Nat
  bytes : Nat := 0

namespace RelayExportBuffer

def isFull (b : RelayExportBuffer) (frameBytes : Nat) : Bool :=
  b.frames.length ≥ b.maxFrames || satAdd b.bytes frameBytes > b.maxBytes

def makeRoom (maxFrames maxBytes frameBytes : Nat) :
    List (RelayFrame × DeliveryHint) → Nat → RelayExportBuffer
  | [], bytes => { frames := [], maxFrames, maxBytes, bytes }
  | old :: rest, bytes =>
    let b : RelayExportBuffer := { frames := old :: rest, maxFrames, maxBytes, bytes }
    if b.isFull frameBytes then
      makeRoom maxFrames maxBytes frameBytes rest (bytes - old.1.retainedBytes)
    else b

/-- Append a copy of a frame. One that is too large by itself clears the buffer. -/
def pushClone (b : RelayExportBuffer) (frame : RelayFrame) (hint : DeliveryHint) :
    RelayExportBuffer :=
  if b.maxFrames = 0 then b
  else
    let frameBytes := frame.retainedBytes
    if frameBytes > b.maxBytes then { b with frames := [], bytes := 0 }
    else
      let b := makeRoom b.maxFrames b.maxBytes frameBytes b.frames b.bytes
      if b.isFull frameBytes then b
      else { b with frames := b.frames ++ [(frame, hint)], bytes := satAdd b.bytes frameBytes }

def drain (b : RelayExportBuffer) : List (RelayFrame × DeliveryHint) × RelayExportBuffer :=
  (b.frames, { b with frames := [], bytes := 0 })

end RelayExportBuffer

inductive ExportOp where
  | pushClone (frame : RelayFrame) (hint : DeliveryHint)
  | drain

namespace ExportOp

def apply (b : RelayExportBuffer) : ExportOp → RelayExportBuffer
  | pushClone frame hint => b.pushClone frame hint
  | drain => b.drain.2

def pushed : ExportOp → Option (RelayFrame × DeliveryHint)
  | pushClone frame hint => some (frame, hint)
  | drain => none

def sinceDrain (ops : List ExportOp) : List (RelayFrame × DeliveryHint) :=
  (ops.rtakeWhile (fun op => op.pushed.isSome)).filterMap pushed

end ExportOp

/-! What the buffer is for. -/

def exportedBytes (frames : List (RelayFrame × DeliveryHint)) : Nat :=
  (frames.map (fun f => f.1.retainedBytes)).sum

def FitsExport (maxFrames maxBytes : Nat) (frames : List (RelayFrame × DeliveryHint)) : Prop :=
  frames.length ≤ maxFrames ∧ exportedBytes frames ≤ maxBytes

def sinceOversized (maxBytes : Nat) (frames : List (RelayFrame × DeliveryHint)) :
    List (RelayFrame × DeliveryHint) :=
  frames.rtakeWhile (fun f => f.1.retainedBytes ≤ maxBytes)

end LibRtmp
