import LibRtmp.Proofs.Writing

namespace LibRtmp.Proofs

open WriteM

section Outcomes

variable {α : Type} {m : WriteM α} {out : Buffer} {allowed : Prop} {size : Nat}
  {bytes : List UInt8} {a : α}

/-- The bytes of the announced size are appended, or the unread bytes stay. -/
inductive Writes (m : WriteM α) (out : Buffer) (allowed : Prop) (size : Nat) (bytes : List UInt8)
    (a : α) : Prop where
  | whole (out' : Buffer) (hr : m.on out = (.ok a, out')) (hp : out'.peek = out.peek ++ bytes)
    (hlen : bytes.length = size) (ha : allowed) (hfit : out.peek.length + size ≤ bufferMaxSize)
  | none (e : ErrorCode) (out' : Buffer) (hr : m.on out = (.error e, out'))
    (hp : out'.peek = out.peek)
    (hwhy : ¬ allowed ∨ out.peek.length + size > bufferMaxSize)

theorem writes_of_spec (h : AllOrNothing m bytes a) (ha : allowed)
    (hlen : bytes.length = size) : Writes m out allowed size bytes a := by
  have hout := h out
  rw [hlen] at hout
  split at hout
  · rename_i hfit
    obtain ⟨out', hr, hp⟩ := hout
    exact .whole out' hr hp hlen ha hfit
  · rename_i hfull
    obtain ⟨out', hr, hp⟩ := hout
    exact .none .internal out' hr hp (.inr (Nat.lt_of_not_le hfull))

end Outcomes

section Messages

variable {msg : ChunkMessage} {payload : List UInt8} {payloadLen chunkSize : Nat} {out : Buffer}

def messageLen (msg : ChunkMessage) (payloadLen chunkSize : Nat) : Nat :=
  firstHeaderLen msg.csid 0 msg.timestamp +
    chunkBodyLen msg.csid payloadLen chunkSize (decide (msg.timestamp ≥ extendedTimestampMarker))

theorem chunk_write_writes :
    Writes (chunkWrite msg payload payloadLen chunkSize) out (Writable msg payload payloadLen)
      (messageLen msg payloadLen chunkSize)
      (messageBytes msg (payload.take payloadLen) chunkSize) () := by
  by_cases hw : Writable msg payload payloadLen
  · refine writes_of_spec (chunk_write_spec hw chunkSize) hw ?_
    unfold messageBytes messageLen
    rw [List.length_append, first_header_length (Nat.zero_le 2), body_bytes_length,
      extended_ts_some, List.length_take, Nat.min_eq_left hw.payload_le]
  · obtain ⟨e, hr⟩ := chunk_write_refuses hw chunkSize out
    exact .none e out hr rfl (.inl hw)

end Messages

section Media

variable {t : MediaHeaderTracker} {compact : Bool} {info : MediaMessageInfo}
  {payload body : List UInt8} {chunkSize : Nat} {h : MediaFirstHeader} {out : Buffer}

def mediaLen (h : MediaFirstHeader) (info : MediaMessageInfo) (payloadLen chunkSize : Nat) : Nat :=
  firstHeaderLen h.csid h.fmt h.tsField + chunkBodyLen (mediaChunkStream info.frameType).1
    payloadLen chunkSize (decide (info.timestamp ≥ extendedTimestampMarker))

theorem media_bytes_length (hc : Chosen t info payload.length h) (chunkSize : Nat) :
    (mediaBytes h info.timestamp payload chunkSize).length =
      mediaLen h info payload.length chunkSize := by
  unfold mediaBytes mediaLen
  rw [List.length_append, first_header_length hc.fmt_le, body_bytes_length, extended_ts_some,
    hc.csid]

/-- The body that `encode_media_body` appends to some buffer for a frame. -/
def EncodedBody (info : MediaMessageInfo) (payload : List UInt8) (chunkSize : Nat)
    (body : List UInt8) : Prop :=
  ∃ out out' : Buffer, (encodeMediaBody info.frameType info.timestamp payload chunkSize).on out =
    (.ok (), out') ∧ out'.peek = out.peek ++ body

theorem encoded_body_bytes (hb : EncodedBody info payload chunkSize body) :
    body = bodyBytes (mediaChunkStream info.frameType).1 payload chunkSize
      (extendedTs info.timestamp) := by
  obtain ⟨out, out', hr, hp⟩ := hb
  have hspec := write_chunk_body_spec (media_csid_valid info.frameType) payload chunkSize
    (extendedTs info.timestamp)
  exact List.append_cancel_left (hp.symm.trans (hspec.of_ok hr).2)

/-- Behind one header the body encoded before gives the same bytes. -/
theorem encoded_body_spec
    (hc : t.choose compact info.frameType info.msgStreamId info.timestamp payload.length = .ok h)
    (hb : EncodedBody info payload chunkSize body) :
    AllOrNothing (writeMediaMessageWithBody t compact info payload.length body)
      (mediaBytes h info.timestamp payload chunkSize) (t.commit h) := by
  have hspec := write_with_body_spec hc body
  rw [encoded_body_bytes hb, ← (choose_cases hc).csid] at hspec
  rw [encoded_body_bytes hb, ← (choose_cases hc).csid]
  exact hspec

theorem choose_refuses {e : ErrorCode} {payloadLen : Nat}
    (hc : t.choose compact info.frameType info.msgStreamId info.timestamp payloadLen = .error e) :
    payloadLen > rtmpWireMaxMsgLength := by
  unfold MediaHeaderTracker.choose at hc
  split at hc
  · assumption
  · cases hc

/-- A payload that is too long is refused; else the announced bytes are appended, or nothing. -/
def MediaOutcome (t : MediaHeaderTracker) (compact : Bool) (info : MediaMessageInfo)
    (payload : List UInt8) (chunkSize : Nat) (out : Buffer) (m : WriteM MediaHeaderTracker) :
    Prop :=
  match t.choose compact info.frameType info.msgStreamId info.timestamp payload.length with
  | .error e => payload.length > rtmpWireMaxMsgLength ∧ m.on out = (.error e, out)
  | .ok h =>
    (t.commit h).last = Function.update t.last (mediaChunkStream info.frameType).2.2
        (some ⟨info.msgStreamId, info.timestamp, payload.length,
          (mediaChunkStream info.frameType).2.1⟩) ∧
      Writes m out True (mediaLen h info payload.length chunkSize)
        (mediaBytes h info.timestamp payload chunkSize) (t.commit h)

theorem media_outcome {m : WriteM MediaHeaderTracker}
    (hrefuses : ∀ e, t.choose compact info.frameType info.msgStreamId info.timestamp
      payload.length = .error e → m.on out = (.error e, out))
    (hwrites : ∀ h, t.choose compact info.frameType info.msgStreamId info.timestamp
      payload.length = .ok h →
      AllOrNothing m (mediaBytes h info.timestamp payload chunkSize) (t.commit h)) :
    MediaOutcome t compact info payload chunkSize out m := by
  unfold MediaOutcome
  cases hc : t.choose compact info.frameType info.msgStreamId info.timestamp payload.length with
  | error e => exact ⟨choose_refuses hc, hrefuses e hc⟩
  | ok h =>
    have hch := choose_cases hc
    refine ⟨?_, writes_of_spec (hwrites h hc) trivial (media_bytes_length hch chunkSize)⟩
    rw [MediaHeaderTracker.commit, hch.slot, hch.current]

theorem media_message_outcome : MediaOutcome t compact info payload chunkSize out
    (writeMediaMessage t compact info payload chunkSize) := by
  refine media_outcome (fun e hc => ?_) fun h hc => write_media_message_spec hc chunkSize
  rw [writeMediaMessage, hc]
  rfl

theorem media_body_outcome (hb : EncodedBody info payload chunkSize body) :
    MediaOutcome t compact info payload chunkSize out
      (writeMediaMessageWithBody t compact info payload.length body) := by
  refine media_outcome (fun e hc => ?_) fun h hc => encoded_body_spec hc hb
  rw [writeMediaMessageWithBody, hc]
  rfl

end Media

/-- The writers of messages append a message of exactly the announced size or leave the unread
bytes alone, and they refuse only what is not well formed or does not fit. A body that was encoded
before leads to the same bytes. -/
theorem writers_all_or_nothing (out : Buffer) (msg : ChunkMessage) (data : List UInt8)
    (dataLen chunkSize : Nat) (t : MediaHeaderTracker) (compact : Bool) (info : MediaMessageInfo)
    (payload : List UInt8) :
    Writes (chunkWrite msg data dataLen chunkSize) out (Writable msg data dataLen)
        (messageLen msg dataLen chunkSize) (messageBytes msg (data.take dataLen) chunkSize) () ∧
      MediaOutcome t compact info payload chunkSize out
        (writeMediaMessage t compact info payload chunkSize) ∧
      ∀ body, EncodedBody info payload chunkSize body →
        MediaOutcome t compact info payload chunkSize out
          (writeMediaMessageWithBody t compact info payload.length body) :=
  ⟨chunk_write_writes, media_message_outcome, fun _ hb => media_body_outcome hb⟩

/-- A short audio frame, written to a new buffer. -/
theorem short_frame_writes :
    MediaOutcome {} true ⟨.audio, 1, 20⟩ [0xAF, 1, 7] 128 .new
      (writeMediaMessageWithBody {} true ⟨.audio, 1, 20⟩ 3 [0xAF, 1, 7]) := by
  have hbytes : bodyBytes (mediaChunkStream .audio).1 [0xAF, 1, 7] 128 none = [0xAF, 1, 7] := by
    decide +kernel
  have hspec := (write_chunk_body_spec (media_csid_valid .audio) [0xAF, 1, 7] 128 none).appends
  rw [hbytes] at hspec
  obtain ⟨out', hr, hp⟩ := hspec .new (by rw [Buffer.peek_new]; decide)
  exact (writers_all_or_nothing .new {} [] 0 128 {} true ⟨.audio, 1, 20⟩ [0xAF, 1, 7]).2.2
    [0xAF, 1, 7] ⟨.new, out', hr, hp⟩

end LibRtmp.Proofs
