import LibRtmp.Message.Control

namespace LibRtmp

structure Delivery where
  msg : ChunkMessage
  payload : List UInt8
  deriving DecidableEq

structure DecodeState where
  buf : Buffer
  reg : ChunkRegistry
  delivered : List Delivery := []
  error : Option ErrorCode := none
  refused : Bool := false

def ChunkReader := Buffer → ChunkRegistry → ReadState × Except ErrorCode (Nat × List UInt8)

def borrowed : ChunkReader := fun buf reg =>
  let (st, rc) := chunkRead buf reg {}
  (st, rc.map (fun rc => (rc, st.payload)))

def owned : ChunkReader := fun buf reg => chunkReadOwned buf reg {}

def readMessages (read : ChunkReader)
    (control : ChunkRegistry → UInt8 → List UInt8 → ChunkRegistry) :
    Nat → DecodeState → Option DecodeState
  | 0, _ => none
  | fuel + 1, d =>
    let (st, rc) := read d.buf d.reg
    match rc with
    | .error e => some { d with buf := st.buf, reg := st.reg, error := some e }
    | .ok (rc, payload) =>
      if rc = 1 then
        if st.msg.isComplete then
          readMessages read control fuel { d with
            buf := st.buf
            reg := control st.reg st.msg.msgTypeId payload
            delivered := d.delivered ++ [⟨st.msg, payload⟩] }
        else readMessages read control fuel { d with buf := st.buf, reg := st.reg }
      else if st.buf.available ≥ d.buf.available then
        some { d with buf := st.buf, reg := st.reg }
      else readMessages read control fuel { d with buf := st.buf, reg := st.reg }

def noControl (reg : ChunkRegistry) (_ : UInt8) (_ : List UInt8) : ChunkRegistry := reg

def appendPiece (read : ChunkReader)
    (control : ChunkRegistry → UInt8 → List UInt8 → ChunkRegistry) (d : DecodeState)
    (piece : List UInt8) : Option DecodeState :=
  if d.error.isSome || d.refused then some d
  else
    match d.buf.write piece with
    | (buf, .error _) => some { d with buf := buf, refused := true }
    | (buf, .ok _) => readMessages read control (buf.available + 1) { d with buf := buf }

def decodePieces (read : ChunkReader)
    (control : ChunkRegistry → UInt8 → List UInt8 → ChunkRegistry) (reg : ChunkRegistry)
    (pieces : List (List UInt8)) : Option DecodeState :=
  pieces.foldlM (appendPiece read control) { buf := Buffer.new, reg := reg }

end LibRtmp
