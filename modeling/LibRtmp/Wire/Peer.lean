import LibRtmp.Wire.Chunk
import LibRtmp.Message.Decode

namespace LibRtmp.Wire

/-- What a chunk stream's headers have said so far; the next header may leave fields out. -/
structure Context where
  started : Bool := false
  timestamp : UInt32 := 0
  length : Nat := 0
  typeId : UInt8 := 0
  streamId : UInt32 := 0
  ext : Bool := false
  delta : UInt32 := 0

/-- The rules for the header that starts a message: what is left out stays as it was. -/
def Context.next (ctx : Context) (w : Chunk) : Context :=
  match w.header with
  | .full _ length typeId streamId =>
    { started := true, timestamp := w.time, length, typeId, streamId
      ext := w.ext.isSome, delta := w.time }
  | .sameStream _ length typeId =>
    { started := true, timestamp := ctx.timestamp + w.time, length, typeId
      streamId := ctx.streamId, ext := w.ext.isSome, delta := w.time }
  | .sameLength _ =>
    { ctx with timestamp := ctx.timestamp + w.time, ext := w.ext.isSome, delta := w.time }
  | .same => { ctx with timestamp := ctx.timestamp + ctx.delta }

def Context.announces (ctx : Context) : Header → Bool
  | .same => ctx.ext
  | hd => decide (hd.ts = 0xFFFFFF)

structure Message where
  csid : Nat
  timestamp : UInt32
  typeId : UInt8
  streamId : UInt32
  payload : List UInt8
  deriving DecidableEq

def Context.message (ctx : Context) (csid : Nat) (payload : List UInt8) : Message :=
  ⟨csid, ctx.timestamp, ctx.typeId, ctx.streamId, payload⟩

/-- One chunk stream of a conforming peer, with the sent and unsent parts of its message. -/
structure Peer where
  ctx : Context := {}
  sent : List UInt8 := []
  rest : List UInt8 := []

namespace Peer

def after (ctx : Context) (sent rest : List UInt8) : Peer :=
  if rest = [] then { ctx } else { ctx, sent, rest }

def finished (csid : Nat) (ctx : Context) (sent rest : List UInt8) : Option Message :=
  if rest = [] then some (ctx.message csid sent) else none

end Peer

/-- A chunk that a conforming peer may send at chunk size `c`, and the message it completes. -/
inductive Emits (c csid : Nat) : Peer → Chunk → Peer → Option Message → Prop where
  | start {ctx : Context} {w : Chunk} {payload : List UInt8} (wf : w.WellFormed)
      (id : w.csid = csid) (known : 2 ≤ w.header.fmt → ctx.started = true)
      (ext : w.ext.isSome = ctx.announces w.header)
      (length : payload.length = (ctx.next w).length) (data : w.data = payload.take c) :
      Emits c csid { ctx } w (.after (ctx.next w) (payload.take c) (payload.drop c))
        (Peer.finished csid (ctx.next w) (payload.take c) (payload.drop c))
  | more {ctx : Context} {sent rest : List UInt8} {w : Chunk} (wf : w.WellFormed)
      (id : w.csid = csid) (fmt : w.header = .same) (ext : w.ext.isSome = ctx.ext)
      (open_ : rest ≠ []) (data : w.data = rest.take c) :
      Emits c csid { ctx, sent, rest } w (.after ctx (sent ++ rest.take c) (rest.drop c))
        (Peer.finished csid ctx (sent ++ rest.take c) (rest.drop c))

structure Limits where
  msgLength : Nat
  active : Nat
  reassembly : Nat

structure Load where
  bytes : Nat := 0
  count : Nat := 0
  table : Nat := 0

def partialBytes (ids : List Nat) (ps : Nat → Peer) : Nat :=
  (ids.map (fun id => (ps id).sent.length)).sum

def partialCount (ids : List Nat) (ps : Nat → Peer) : Nat :=
  (ids.map (fun id => if (ps id).rest = [] then 0 else 1)).sum

def messageLength (p : Peer) (w : Chunk) : Nat :=
  if p.rest = [] then (p.ctx.next w).length else p.ctx.length

/-- The limits allow the next chunk, whose bytes count even when it completes its message. -/
structure Affords (lim : Limits) (load : Load) (ids : List Nat) (ps : Nat → Peer) (w : Chunk) :
    Prop where
  length_le : messageLength (ps w.csid) w ≤ lim.msgLength
  bytes : w.data ≠ [] →
    load.bytes + partialBytes ids ps + w.data.length ≤ lim.reassembly
  active : (ps w.csid).rest = [] → load.count + partialCount ids ps < lim.active

/-- A run of conforming peers in any interleaving; a message may set a new chunk size. -/
inductive Sends (size : Message → Option Nat) (lim : Limits) (load : Load) (ids : List Nat) :
    Nat → (Nat → Peer) → List Chunk → List Message → Nat → (Nat → Peer) → Prop where
  | nil (c : Nat) (ps : Nat → Peer) : Sends size lim load ids c ps [] [] c ps
  | part {c c' : Nat} {ps qs : Nat → Peer} {w : Chunk} {p' : Peer} {ws : List Chunk}
      {ms : List Message} (mem : w.csid ∈ ids) (afford : Affords lim load ids ps w)
      (emits : Emits c w.csid (ps w.csid) w p' none)
      (next : Sends size lim load ids c (Function.update ps w.csid p') ws ms c' qs) :
      Sends size lim load ids c ps (w :: ws) ms c' qs
  | last {c c' : Nat} {ps qs : Nat → Peer} {w : Chunk} {p' : Peer} {m : Message}
      {ws : List Chunk} {ms : List Message} (mem : w.csid ∈ ids)
      (afford : Affords lim load ids ps w)
      (emits : Emits c w.csid (ps w.csid) w p' (some m))
      (next : Sends size lim load ids ((size m).getD c) (Function.update ps w.csid p') ws ms
        c' qs) :
      Sends size lim load ids c ps (w :: ws) (m :: ms) c' qs

end LibRtmp.Wire
