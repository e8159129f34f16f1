import LibRtmp.Chunk.MediaOut

namespace LibRtmp.Proofs

open WriteM

variable (csid : Nat) {msg : ChunkMessage} {payload : List UInt8} {t : MediaHeaderTracker}

def ValidCsid (csid : Nat) : Prop := rtmpMinCsid ≤ csid ∧ csid ≤ rtmpMaxCsid

def sizeOrDefault (chunkSize : Nat) : Nat := if chunkSize = 0 then 128 else chunkSize

theorem size_or_default_pos (chunkSize : Nat) : 0 < sizeOrDefault chunkSize := by
  unfold sizeOrDefault
  split <;> omega

def bodyBytes (csid : Nat) (payload : List UInt8) (chunkSize : Nat) (ext : Option UInt32) :
    List UInt8 :=
  Slices.joined (continuationHeader csid ext) (Slices.chunks (sizeOrDefault chunkSize) payload)

theorem write_pieces_appends (chdr : List UInt8) (cs : List (List UInt8)) :
    Appends (writePieces chdr cs) (Slices.joined chdr cs) () := by
  induction cs with
  | nil => exact appends_pure ()
  | cons x cs ih =>
    cases cs with
    | nil => exact appends_write x
    | cons y ys => exact (appends_write x).bind ((appends_write chdr).bind ih)

theorem continuation_header_length (ext : Option UInt32) :
    (continuationHeader csid ext).length =
      (basicHeader csid 3).length + extTsSize ext.isSome := by
  cases ext <;> simp [continuationHeader, extTsSize]

theorem body_bytes_length (payload : List UInt8) (chunkSize : Nat)
    (ext : Option UInt32) : (bodyBytes csid payload chunkSize ext).length =
      chunkBodyLen csid payload.length chunkSize ext.isSome := by
  rw [bodyBytes, Slices.joined_chunks_length _ (size_or_default_pos chunkSize),
    continuation_header_length]
  rfl

theorem chunk_body_len_default (csid n chunkSize : Nat) (ext : Bool) :
    chunkBodyLen csid n (if chunkSize = 0 then 128 else chunkSize) ext =
      chunkBodyLen csid n chunkSize ext := by
  unfold chunkBodyLen
  split <;> simp_all

theorem write_chunk_body_spec {csid : Nat} (hc : ValidCsid csid) (payload : List UInt8)
    (chunkSize : Nat) (ext : Option UInt32) :
    AllOrNothing (writeChunkBody csid payload chunkSize ext)
      (bodyBytes csid payload chunkSize ext) () := by
  have hw := (write_pieces_appends (continuationHeader csid ext)
    (Slices.chunks (sizeOrDefault chunkSize) payload)).reserved
  have hmax : ¬csid > rtmpMaxCsid := Nat.not_lt_of_le hc.2
  have hmin : ¬csid < rtmpMinCsid := Nat.not_lt_of_le hc.1
  rw [← bodyBytes, body_bytes_length] at hw
  rw [writeChunkBody, if_neg hmax, if_neg hmin]
  dsimp only
  rw [chunk_body_len_default]
  exact hw

theorem first_header_length {csid fmt : Nat} (hf : fmt ≤ 2) (ts : UInt32) (n : Nat) (ty : UInt8)
    (sid : UInt32) : (firstHeader csid fmt ts n ty sid).length = firstHeaderLen csid fmt ts := by
  unfold firstHeader firstHeaderLen
  rcases (by omega : fmt = 0 ∨ fmt = 1 ∨ fmt = 2) with rfl | rfl | rfl <;>
    by_cases he : extendedTimestampMarker ≤ ts <;> simp [he]

theorem write_first_header_spec {csid fmt : Nat} (hc : ValidCsid csid) (hf : fmt ≤ 2) (ts : UInt32)
    (n : Nat) (ty : UInt8) (sid : UInt32) :
    Appends (writeFirstHeader csid fmt ts n ty sid) (firstHeader csid fmt ts n ty sid) () := by
  have hmax : ¬csid > rtmpMaxCsid := Nat.not_lt_of_le hc.2
  have hmin : ¬csid < rtmpMinCsid := Nat.not_lt_of_le hc.1
  rw [writeFirstHeader, if_neg (Nat.not_lt_of_le hf), if_neg hmax, if_neg hmin]
  exact appends_write _

def extendedTs (ts : UInt32) : Option UInt32 :=
  if ts ≥ extendedTimestampMarker then some ts else none

theorem extended_ts_some (ts : UInt32) :
    (extendedTs ts).isSome = decide (ts ≥ extendedTimestampMarker) := by
  unfold extendedTs
  split <;> simp_all

/-- Header first, then the body, behind one reservation for both. -/
theorem message_spec {α : Type} {header : WriteM Unit} {body : WriteM α} {h b : List UInt8}
    {n : Nat} {a : α} (hh : Appends header h ()) (hb : Appends body b a)
    (hn : n = h.length + b.length) :
    AllOrNothing (reserveRoom n >>= fun _ => header >>= fun _ => body) (h ++ b) a := by
  have hw : Appends (header >>= fun _ => body) (h ++ b) a := hh.bind hb
  rw [hn, ← List.length_append]
  exact hw.reserved

def messageBytes (msg : ChunkMessage) (payload : List UInt8) (chunkSize : Nat) : List UInt8 :=
  firstHeader msg.csid 0 msg.timestamp msg.msgLength msg.msgTypeId msg.msgStreamId ++
    bodyBytes msg.csid payload chunkSize (extendedTs msg.timestamp)

structure Writable (msg : ChunkMessage) (payload : List UInt8) (payloadLen : Nat) : Prop where
  csid : ValidCsid msg.csid
  fmt : msg.fmt = 0
  length_le : msg.msgLength ≤ rtmpWireMaxMsgLength
  length : payloadLen = msg.msgLength
  payload_le : payloadLen ≤ payload.length

theorem body_bytes_default (payload : List UInt8) (chunkSize : Nat)
    (ext : Option UInt32) :
    bodyBytes csid payload (if chunkSize = 0 then 128 else chunkSize) ext =
      bodyBytes csid payload chunkSize ext := by
  unfold bodyBytes sizeOrDefault
  split <;> simp_all

theorem chunk_write_spec {payloadLen : Nat}
    (hw : Writable msg payload payloadLen) (chunkSize : Nat) :
    AllOrNothing (chunkWrite msg payload payloadLen chunkSize)
      (messageBytes msg (payload.take payloadLen) chunkSize) () := by
  have hext : (if decide (msg.timestamp ≥ extendedTimestampMarker) = true then
      some msg.timestamp else none) = extendedTs msg.timestamp := by
    simp [extendedTs]
  have hbody := (write_chunk_body_spec hw.csid (payload.take payloadLen)
    (if chunkSize = 0 then 128 else chunkSize) (extendedTs msg.timestamp)).appends
  have hlen := body_bytes_length msg.csid (payload.take payloadLen) chunkSize
    (extendedTs msg.timestamp)
  rw [body_bytes_default] at hbody
  rw [List.length_take, Nat.min_eq_left hw.payload_le, extended_ts_some] at hlen
  rw [chunkWrite, if_neg (Nat.not_lt_of_le hw.csid.2), if_neg (Nat.not_lt_of_le hw.csid.1),
    if_neg (not_not.mpr hw.fmt), if_neg (Nat.not_lt_of_le hw.length_le),
    if_neg (not_not.mpr hw.length), if_neg (Nat.not_lt_of_le hw.payload_le)]
  dsimp only
  rw [hext]
  apply message_spec (write_first_header_spec hw.csid (Nat.zero_le 2) _ _ _ _) hbody
  rw [first_header_length (Nat.zero_le 2), hlen, chunk_body_len_default]

/-- A message that `chunk_write` refuses leaves no trace. -/
theorem chunk_write_refuses {payloadLen : Nat}
    (hw : ¬ Writable msg payload payloadLen) (chunkSize : Nat) (out : Buffer) :
    ∃ e, (chunkWrite msg payload payloadLen chunkSize).on out = (.error e, out) := by
  unfold chunkWrite
  by_cases h1 : msg.csid > rtmpMaxCsid
  · rw [if_pos h1]
    exact ⟨.chunk, rfl⟩
  by_cases h2 : msg.csid < rtmpMinCsid
  · rw [if_neg h1, if_pos h2]
    exact ⟨.chunk, rfl⟩
  by_cases h3 : msg.fmt ≠ 0
  · rw [if_neg h1, if_neg h2, if_pos h3]
    exact ⟨.internal, rfl⟩
  by_cases h4 : msg.msgLength > rtmpWireMaxMsgLength
  · rw [if_neg h1, if_neg h2, if_neg h3, if_pos h4]
    exact ⟨.internal, rfl⟩
  by_cases h5 : payloadLen ≠ msg.msgLength
  · rw [if_neg h1, if_neg h2, if_neg h3, if_neg h4, if_pos h5]
    exact ⟨.internal, rfl⟩
  by_cases h6 : payloadLen > payload.length
  · rw [if_neg h1, if_neg h2, if_neg h3, if_neg h4, if_neg h5, if_pos h6]
    exact ⟨.internal, rfl⟩
  exact absurd ⟨⟨Nat.le_of_not_lt h2, Nat.le_of_not_lt h1⟩, not_not.mp h3, Nat.le_of_not_lt h4,
    not_not.mp h5, Nat.le_of_not_lt h6⟩ hw

/-- A write that succeeded was not refused, and has appended the whole message. -/
theorem chunk_write_ok {payloadLen chunkSize : Nat}
    {out out' : Buffer} (hr : (chunkWrite msg payload payloadLen chunkSize).on out = (.ok (), out')) :
    Writable msg payload payloadLen ∧
      out'.peek = out.peek ++ messageBytes msg (payload.take payloadLen) chunkSize := by
  have hw : Writable msg payload payloadLen := by
    by_contra hn
    obtain ⟨e, he⟩ := chunk_write_refuses hn chunkSize out
    cases hr.symm.trans he
  exact ⟨hw, ((chunk_write_spec hw chunkSize).of_ok hr).2⟩

theorem chunk_write_lengthens (msg : ChunkMessage) (payload : List UInt8) (n chunkSize : Nat) :
    Lengthens (chunkWrite msg payload n chunkSize) := by
  by_cases hw : Writable msg payload n
  · exact (chunk_write_spec hw chunkSize).lengthens
  · intro out
    obtain ⟨e, he⟩ := chunk_write_refuses hw chunkSize out
    exact ⟨[], by rw [he, List.append_nil]⟩

def controlBytes (ty : UInt8) (data : List UInt8) (chunkSize : Nat) : List UInt8 :=
  messageBytes { csid := 2, msgLength := data.length, msgTypeId := ty } data chunkSize

theorem control_bytes_ne_nil (ty : UInt8) (data : List UInt8) (chunkSize : Nat) :
    controlBytes ty data chunkSize ≠ [] := by
  intro h
  have hlen := congrArg List.length h
  simp [controlBytes, messageBytes, firstHeader] at hlen

/-- A control message is written whole or not at all. -/
theorem control_write_spec (ty : UInt8) (data : List UInt8) (chunkSize : Nat)
    (h : data.length ≤ rtmpWireMaxMsgLength) :
    AllOrNothing (chunkWrite { csid := 2, msgLength := data.length, msgTypeId := ty } data
      data.length chunkSize) (controlBytes ty data chunkSize) () := by
  have hcsid : ValidCsid 2 := ⟨by decide, by decide⟩
  have hw : Writable { csid := 2, msgLength := data.length, msgTypeId := ty } data data.length :=
    ⟨hcsid, rfl, h, rfl, Nat.le_refl _⟩
  have hspec := chunk_write_spec hw chunkSize
  rwa [List.take_length] at hspec

def mediaBytes (header : MediaFirstHeader) (timestamp : UInt32) (payload : List UInt8)
    (chunkSize : Nat) : List UInt8 :=
  firstHeader header.csid header.fmt header.tsField header.current.msgLength
      header.current.msgTypeId header.current.msgStreamId ++
    bodyBytes header.csid payload chunkSize (extendedTs timestamp)

theorem media_csid_valid (ft : FrameType) : ValidCsid (mediaChunkStream ft).1 := by
  cases ft <;> exact ⟨by decide, by decide⟩

/-- The stream of the frame type, and fmt 0, or fmt 1 or 2 with a delta from the last header. -/
structure Chosen (t : MediaHeaderTracker) (msg : MediaMessageInfo) (payloadLen : Nat)
    (h : MediaFirstHeader) : Prop where
  csid : h.csid = (mediaChunkStream msg.frameType).1
  slot : h.slot = (mediaChunkStream msg.frameType).2.2
  current : h.current =
    ⟨msg.msgStreamId, msg.timestamp, payloadLen, (mediaChunkStream msg.frameType).2.1⟩
  length_le : payloadLen ≤ rtmpWireMaxMsgLength
  header : (h.fmt = 0 ∧ h.tsField = msg.timestamp) ∨
    ∃ prev, t.last h.slot = some prev ∧ prev.msgStreamId = msg.msgStreamId ∧
      prev.timestamp ≤ msg.timestamp ∧ msg.timestamp < extendedTimestampMarker ∧
      h.tsField = msg.timestamp - prev.timestamp ∧
      (h.fmt = 1 ∨ h.fmt = 2 ∧ prev.msgLength = payloadLen ∧
        prev.msgTypeId = (mediaChunkStream msg.frameType).2.1)

theorem choose_cases {compact : Bool} {msg : MediaMessageInfo}
    {payloadLen : Nat} {h : MediaFirstHeader}
    (hc : t.choose compact msg.frameType msg.msgStreamId msg.timestamp payloadLen = .ok h) :
    Chosen t msg payloadLen h := by
  unfold MediaHeaderTracker.choose at hc
  split at hc
  · cases hc
  rename_i hlen
  dsimp only at hc
  cases hl : t.last (mediaChunkStream msg.frameType).2.2 with
  | none =>
    rw [hl] at hc
    cases hc
    exact ⟨rfl, rfl, rfl, Nat.le_of_not_lt hlen, .inl ⟨rfl, rfl⟩⟩
  | some prev =>
    rw [hl] at hc
    dsimp only at hc
    by_cases hcond : compact = true ∧ prev.msgStreamId = msg.msgStreamId ∧
        prev.timestamp ≤ msg.timestamp ∧ msg.timestamp < extendedTimestampMarker
    · rw [if_pos hcond] at hc
      cases hc
      refine ⟨rfl, rfl, rfl, Nat.le_of_not_lt hlen, .inr ⟨prev, hl, hcond.2.1, hcond.2.2.1,
        hcond.2.2.2, rfl, ?_⟩⟩
      dsimp only
      split
      · rename_i hsame
        exact .inr ⟨rfl, hsame.1, hsame.2.2⟩
      · exact .inl rfl
    · rw [if_neg hcond] at hc
      cases hc
      exact ⟨rfl, rfl, rfl, Nat.le_of_not_lt hlen, .inl ⟨rfl, rfl⟩⟩

theorem Chosen.fmt_le {msg : MediaMessageInfo} {payloadLen : Nat}
    {h : MediaFirstHeader} (hc : Chosen t msg payloadLen h) : h.fmt ≤ 2 := by
  rcases hc.header with ⟨h0, -⟩ | ⟨_, -, -, -, -, -, h1 | ⟨h2, -⟩⟩
  · omega
  · omega
  · omega

/-- The writer appends the whole message or nothing. -/
theorem write_media_message_spec {compact : Bool}
    {msg : MediaMessageInfo} {payload : List UInt8} {h : MediaFirstHeader}
    (hc : t.choose compact msg.frameType msg.msgStreamId msg.timestamp payload.length = .ok h)
    (chunkSize : Nat) :
    AllOrNothing (writeMediaMessage t compact msg payload chunkSize)
      (mediaBytes h msg.timestamp payload chunkSize) (t.commit h) := by
  have hch := choose_cases hc
  have hcsid : ValidCsid h.csid := by
    rw [hch.csid]
    exact media_csid_valid msg.frameType
  have henc : Appends (encodeMediaBody msg.frameType msg.timestamp payload chunkSize)
      (bodyBytes h.csid payload chunkSize (extendedTs msg.timestamp)) () := by
    rw [hch.csid]
    exact (write_chunk_body_spec (media_csid_valid msg.frameType) payload chunkSize _).appends
  have hbody : Appends (encodeMediaBody msg.frameType msg.timestamp payload chunkSize >>=
      fun _ => pure (t.commit h))
      (bodyBytes h.csid payload chunkSize (extendedTs msg.timestamp) ++ []) (t.commit h) :=
    henc.bind (appends_pure (t.commit h))
  rw [List.append_nil] at hbody
  rw [writeMediaMessage, hc]
  apply message_spec (write_first_header_spec hcsid hch.fmt_le _ _ _ _) hbody
  rw [first_header_length hch.fmt_le, body_bytes_length, extended_ts_some,
    MediaFirstHeader.encodedLen, hch.csid]
  rfl

theorem write_media_message_ok {t t' : MediaHeaderTracker} {compact : Bool}
    {msg : MediaMessageInfo} {payload : List UInt8} {chunkSize : Nat} {out out' : Buffer}
    (hr : (writeMediaMessage t compact msg payload chunkSize).on out = (.ok t', out')) :
    ∃ h, Chosen t msg payload.length h ∧ t' = t.commit h ∧
      out'.peek = out.peek ++ mediaBytes h msg.timestamp payload chunkSize := by
  cases hc : t.choose compact msg.frameType msg.msgStreamId msg.timestamp payload.length with
  | error e =>
    rw [writeMediaMessage, hc] at hr
    cases hr
  | ok h =>
    obtain ⟨ht, hp⟩ := (write_media_message_spec hc chunkSize).of_ok hr
    exact ⟨h, choose_cases hc, ht, hp⟩

theorem media_message_lengthens (t : MediaHeaderTracker) (compact : Bool) (msg : MediaMessageInfo)
    (payload : List UInt8) (chunkSize : Nat) :
    Lengthens (writeMediaMessage t compact msg payload chunkSize) := by
  cases hc : t.choose compact msg.frameType msg.msgStreamId msg.timestamp payload.length with
  | error e =>
    rw [writeMediaMessage, hc]
    exact fun out => ⟨[], (List.append_nil _).symm⟩
  | ok h => exact (write_media_message_spec hc chunkSize).lengthens

section Headers

def headerBytes (h : MediaFirstHeader) : List UInt8 :=
  firstHeader h.csid h.fmt h.tsField h.current.msgLength h.current.msgTypeId h.current.msgStreamId

variable {t : MediaHeaderTracker} {compact : Bool} {msg : MediaMessageInfo} {payloadLen : Nat}
  {h : MediaFirstHeader}

theorem header_length (hc : Chosen t msg payloadLen h) : (headerBytes h).length = h.encodedLen :=
  first_header_length hc.fmt_le _ _ _ _

theorem header_appends (hc : Chosen t msg payloadLen h) : Appends h.write (headerBytes h) () := by
  have hcsid : ValidCsid h.csid := by
    rw [hc.csid]
    exact media_csid_valid msg.frameType
  exact write_first_header_spec hcsid hc.fmt_le _ _ _ _

theorem header_reserved (hc : Chosen t msg payloadLen h) :
    AllOrNothing (reserveRoom h.encodedLen >>= fun _ => h.write) (headerBytes h) () := by
  rw [← header_length hc]
  exact (header_appends hc).reserved

/-- A body that was encoded before goes behind the header. -/
theorem write_with_body_spec (hc : t.choose compact msg.frameType msg.msgStreamId msg.timestamp
      payloadLen = .ok h) (body : List UInt8) :
    AllOrNothing (writeMediaMessageWithBody t compact msg payloadLen body) (headerBytes h ++ body)
      (t.commit h) := by
  have hch := choose_cases hc
  have hbody : Appends (writeAll body >>= fun _ => pure (t.commit h)) (body ++ []) (t.commit h) :=
    (appends_write body).bind (appends_pure _)
  rw [List.append_nil] at hbody
  rw [writeMediaMessageWithBody, hc]
  exact message_spec (header_appends hch) hbody (by rw [header_length hch])

end Headers

theorem media_body_lengthens (t : MediaHeaderTracker) (compact : Bool) (msg : MediaMessageInfo)
    (payloadLen : Nat) (body : List UInt8) :
    Lengthens (writeMediaMessageWithBody t compact msg payloadLen body) := by
  cases hc : t.choose compact msg.frameType msg.msgStreamId msg.timestamp payloadLen with
  | error e =>
    rw [writeMediaMessageWithBody, hc]
    exact fun out => ⟨[], (List.append_nil _).symm⟩
  | ok h => exact (write_with_body_spec hc body).lengthens

end LibRtmp.Proofs
