import LibRtmp.Message.Encode
import LibRtmp.Proofs.Feeding
import LibRtmp.Proofs.Encoding
import LibRtmp.Proofs.StreamTable

namespace LibRtmp.Proofs

open Wire

variable {item : Outbound}

def sentMessage : Outbound → Message
  | .media _ msg payload =>
    ⟨(mediaChunkStream msg.frameType).1, msg.timestamp, (mediaChunkStream msg.frameType).2.1,
      msg.msgStreamId, payload⟩
  | .message msg payload payloadLen =>
    ⟨msg.csid, msg.timestamp, msg.msgTypeId, msg.msgStreamId, payload.take payloadLen⟩
  | .setChunkSize timestamp msgStreamId chunkSize =>
    ⟨2, timestamp, ctrlSetChunkSize, msgStreamId, writeSetChunkSize chunkSize⟩

def queued : List SendStep → List Outbound
  | [] => []
  | .queue item :: steps => item :: queued steps
  | .flush _ :: steps => queued steps

/-- Other messages keep off the media chunk streams and the control types. -/
def Regular : Outbound → Prop
  | .media .. => True
  | .message msg _ _ => msg.csid ∉ [4, 5, 6] ∧ msg.msgTypeId ≠ ctrlSetChunkSize ∧
      msg.msgTypeId ≠ ctrlAbortMessage
  | .setChunkSize _ _ chunkSize => minChunkSize ≤ chunkSize.toNat ∧ chunkSize.toNat < 0x80000000

def resizes (m : Message) : Option Nat :=
  if m.typeId = ctrlSetChunkSize then (readSetChunkSize m.payload).toOption else none

theorem read_set_chunk_size_bounds {data : List UInt8} {v : Nat}
    (h : (readSetChunkSize data).toOption = some v) :
    defaultChunkSize ≤ v ∧ v ≤ maxPeerChunkSize := by
  unfold readSetChunkSize at h
  split at h
  · cases h
  split at h
  · cases h
  · rename_i hb
    obtain rfl := Option.some.inj h
    have hmin : minChunkSize = defaultChunkSize := rfl
    have hmax : defaultChunkSize ≤ maxPeerChunkSize := by decide
    omega

theorem read_written_chunk_size {v : UInt32} (h : minChunkSize ≤ v.toNat ∧ v.toNat < 0x80000000) :
    readSetChunkSize (writeSetChunkSize v) = .ok (min v.toNat maxPeerChunkSize) := by
  have hback : ntoh32 (writeSetChunkSize v) = v.toNat := by
    have hlen : (Bytes.toBe 4 v.toNat).length = 4 := Bytes.to_be_length ..
    rw [ntoh32, writeSetChunkSize, List.take_of_length_le (Nat.le_of_eq hlen)]
    exact Bytes.of_be_to_be_lt v.toNat_lt
  have hlen : ¬(writeSetChunkSize v).length < 4 := by simp [writeSetChunkSize]
  rw [readSetChunkSize, if_neg hlen, hback, if_neg (by omega)]

/-- Messages that are no aborts are handled by setting the chunk size they carry. -/
theorem control_resizes {ms : List Message} (h : ∀ m ∈ ms, m.typeId ≠ ctrlAbortMessage) :
    Controls applyControl resizes ms := by
  constructor
  · intro x hx reg
    have habort : x.msg.msgTypeId ≠ ctrlAbortMessage := h _ hx
    have htype : (meaning x).typeId = x.msg.msgTypeId := rfl
    have hpayload : (meaning x).payload = x.payload := rfl
    rw [applyControl, if_neg habort, resizes, htype, hpayload]
    split
    · cases readSetChunkSize x.payload <;> rfl
    · rfl
  · intro m _ v hv
    unfold resizes at hv
    split at hv
    · exact read_set_chunk_size_bounds hv
    · cases hv

theorem media_type (ft : FrameType) : (mediaChunkStream ft).2.1 ≠ ctrlSetChunkSize ∧
    (mediaChunkStream ft).2.1 ≠ ctrlAbortMessage := by
  cases ft <;> decide

theorem regular_not_abort (h : Regular item) :
    (sentMessage item).typeId ≠ ctrlAbortMessage := by
  cases item with
  | media _ msg _ => exact (media_type msg.frameType).2
  | message msg _ _ => exact h.2.2
  | setChunkSize => exact (by decide : ctrlSetChunkSize ≠ ctrlAbortMessage)

structure Remembers (ctx : Context) (h : MediaOutHeader) : Prop where
  started : ctx.started = true
  timestamp : ctx.timestamp = h.timestamp
  length : ctx.length = h.msgLength
  typeId : ctx.typeId = h.msgTypeId
  streamId : ctx.streamId = h.msgStreamId

/-- The sender as conforming peers: its chunk size, and the tracker's headers. -/
structure Mirrors (s : Sender) (ids : List Nat) (c : Nat) (ps : Nat → Peer) : Prop where
  size : c = min s.chunkSize maxPeerChunkSize
  size_ge : defaultChunkSize ≤ s.chunkSize
  idle : ∀ id ∈ ids, ps id = { ctx := (ps id).ctx }
  last : ∀ ft h, s.tracker.last (mediaChunkStream ft).2.2 = some h →
    Remembers (ps (mediaChunkStream ft).1).ctx h

variable {s s' : Sender} {ids : List Nat} {c csid fmt n : Nat} {ps : Nat → Peer} {lim : Limits}
  {ts : UInt32} {ty : UInt8} {sid : UInt32} {ctx : Context} {payload : List UInt8}
  {ext : Option UInt32}

theorem Mirrors.others (hm : Mirrors s ids c ps) (csid : Nat) : OthersIdle ids csid ps := by
  intro id hid _
  rw [hm.idle id hid]
  exact ⟨rfl, rfl⟩

/-- A chunk size above any message length cuts as the reader's clamped one does. -/
theorem written_bytes (hm : Mirrors s ids c ps) (hf : fmt ≤ 2)
    (hlen : payload.length ≤ rtmpWireMaxMsgLength) :
    firstHeader csid fmt ts n ty sid ++ bodyBytes csid payload s.chunkSize ext =
      ((wireFirst csid fmt ts n ty sid (payload.take c) ::
        wireRest csid ext c (payload.drop c)).map Chunk.bytes).flatten := by
  have hge : 128 ≤ s.chunkSize := hm.size_ge
  have hsize : sizeOrDefault s.chunkSize = s.chunkSize := if_neg (by omega)
  have hmax : rtmpWireMaxMsgLength = maxPeerChunkSize := rfl
  have hpos : 0 < maxPeerChunkSize := by decide
  have hrest : wireRest csid ext s.chunkSize (payload.drop c) =
      wireRest csid ext c (payload.drop c) := by
    rw [wireRest, wireRest, hm.size, Slices.chunks_min (by omega) hpos]
    rw [List.length_drop]
    omega
  have htake : payload.take s.chunkSize = payload.take c := by
    rw [List.take_eq_take_iff, hm.size]
    omega
  have hdrop : payload.drop s.chunkSize = payload.drop c := by
    rw [List.drop_eq_drop_iff, hm.size]
    omega
  rw [message_bytes_wire hf, hsize, htake, hdrop, hrest]

/-- A message as it was written, sent by the peer of its chunk stream. -/
theorem written_sends (hn : ids.Nodup) (hm : Mirrors s ids c ps) (mem : csid ∈ ids)
    (hp : ps csid = { ctx }) (valid : ValidCsid csid) (hf : fmt ≤ 2)
    (hwire : n ≤ rtmpWireMaxMsgLength) (known : fmt = 2 → ctx.started = true)
    (hlen : payload.length =
      (ctx.next (wireFirst csid fmt ts n ty sid (payload.take c))).length)
    (hext : ext.isSome = (ctx.next (wireFirst csid fmt ts n ty sid (payload.take c))).ext)
    (hroom : MessageRoom lim {} payload.length) :
    Sends resizes lim {} ids c ps
      (wireFirst csid fmt ts n ty sid (payload.take c) ::
        wireRest csid ext c (payload.drop c))
      [(ctx.next (wireFirst csid fmt ts n ty sid (payload.take c))).message csid payload]
      ((resizes ((ctx.next (wireFirst csid fmt ts n ty sid (payload.take c))).message csid
        payload)).getD c)
      (Function.update ps csid
        { ctx := ctx.next (wireFirst csid fmt ts n ty sid (payload.take c)) }) := by
  have hpos : 0 < c := by
    have hge := hm.size_ge
    have hmin : 0 < defaultChunkSize ∧ 0 < maxPeerChunkSize := by decide
    rw [hm.size]
    omega
  have hcont := wire_rest_continues valid ext hpos (payload.drop c)
  rw [hext] at hcont
  exact message_sends hn mem (hm.others csid) hroom hp
    (wire_first_starts valid hf hwire known hlen) hcont

/-- After a message the peers are between messages again. -/
theorem Mirrors.advance (hm : Mirrors s ids c ps) (ctx : Context) (csid : Nat) :
    ∀ id ∈ ids, Function.update ps csid { ctx } id =
      { ctx := (Function.update ps csid { ctx } id).ctx } := by
  intro id hid
  by_cases he : id = csid
  · rw [he, Function.update_self]
  · rw [Function.update_of_ne he]
    exact hm.idle id hid

theorem media_csid_mem (ft : FrameType) : (mediaChunkStream ft).1 ∈ [4, 5, 6] := by
  cases ft <;> decide

/-- A message that `chunk_write` accepted, as the peer of its chunk stream sends it. -/
theorem absolute_sends {msg : ChunkMessage} {payloadLen : Nat} {out : Buffer} (hn : ids.Nodup)
    (hm : Mirrors s ids c ps) (mem : msg.csid ∈ ids)
    (hroom : MessageRoom lim {} (payload.take payloadLen).length)
    (hw : (chunkWrite msg payload payloadLen s.chunkSize).on s.out = (.ok (), out)) :
    ∃ ws ctx, out.peek = s.out.peek ++ (ws.map Chunk.bytes).flatten ∧
      Sends resizes lim {} ids c ps ws
        [⟨msg.csid, msg.timestamp, msg.msgTypeId, msg.msgStreamId, payload.take payloadLen⟩]
        ((resizes ⟨msg.csid, msg.timestamp, msg.msgTypeId, msg.msgStreamId,
          payload.take payloadLen⟩).getD c)
        (Function.update ps msg.csid { ctx }) := by
  obtain ⟨hok, hpeek⟩ := chunk_write_ok hw
  have hlen : (payload.take payloadLen).length = msg.msgLength := by
    rw [List.length_take, Nat.min_eq_left hok.payload_le, hok.length]
  have hnext := @wire_first_absolute msg.csid msg.msgLength msg.timestamp msg.msgTypeId
    msg.msgStreamId (ps msg.csid).ctx ((payload.take payloadLen).take c)
  have hsends := @written_sends s ids c msg.csid 0 msg.msgLength ps lim msg.timestamp
    msg.msgTypeId msg.msgStreamId (ps msg.csid).ctx (payload.take payloadLen)
    (extendedTs msg.timestamp) hn hm mem (hm.idle msg.csid mem) hok.csid (Nat.zero_le 2)
    hok.length_le (fun h => by cases h) (by rw [hnext, hlen]) (by rw [hnext]) hroom
  refine ⟨_, _, ?_, hnext ▸ hsends⟩
  rw [hpeek, messageBytes, written_bytes hm (Nat.zero_le 2) (hlen ▸ hok.length_le)]

/-- The header that `choose` picks says to the reader what it says to the tracker. -/
theorem chosen_next {t : MediaHeaderTracker} {msg : MediaMessageInfo} {h : MediaFirstHeader}
    (hc : Chosen t msg payload.length h)
    (hlast : ∀ prev, t.last h.slot = some prev → Remembers ctx prev) (data : List UInt8) :
    (h.fmt = 2 → ctx.started = true) ∧
      Remembers (ctx.next (wireFirst h.csid h.fmt h.tsField h.current.msgLength
        h.current.msgTypeId h.current.msgStreamId data)) h.current ∧
      (ctx.next (wireFirst h.csid h.fmt h.tsField h.current.msgLength h.current.msgTypeId
        h.current.msgStreamId data)).ext = (extendedTs msg.timestamp).isSome := by
  have hfmt := hc.fmt_le
  rw [hc.current]
  dsimp only
  have htime := @wire_first_time h.csid h.fmt payload.length h.tsField
    (mediaChunkStream msg.frameType).2.1 msg.msgStreamId hfmt data
  rcases hc.header with ⟨hf, hts⟩ | ⟨prev, hp, hsid, hle, hlt, hts, hf⟩
  · rw [hf, hts, wire_first_absolute]
    exact ⟨fun h => absurd h (by decide), ⟨rfl, rfl, rfl, rfl, rfl⟩, rfl⟩
  · have hr := hlast prev hp
    have hback : prev.timestamp + h.tsField = msg.timestamp := by
      rw [hts, UInt32.add_comm, UInt32.sub_add_cancel]
    have hsmall : h.tsField < extendedTimestampMarker := by
      rw [hts, UInt32.lt_iff_toNat_lt, UInt32.toNat_sub_of_le _ _ hle]
      have := UInt32.lt_iff_toNat_lt.mp hlt
      omega
    have hnone : extendedTs h.tsField = extendedTs msg.timestamp := by
      rw [extendedTs, extendedTs, if_neg (UInt32.not_le.mpr hsmall), if_neg (UInt32.not_le.mpr hlt)]
    refine ⟨fun _ => hr.started, ?_⟩
    rcases hf with hf | ⟨hf, hlen, hty⟩
    · rw [hf] at htime ⊢
      refine ⟨⟨rfl, ?_, rfl, rfl, hr.streamId.trans hsid⟩, congrArg Option.isSome hnone⟩
      exact (congrArg₂ (· + ·) hr.timestamp htime).trans hback
    · rw [hf] at htime ⊢
      refine ⟨⟨hr.started, ?_, hr.length.trans hlen, hr.typeId.trans hty,
        hr.streamId.trans hsid⟩, congrArg Option.isSome hnone⟩
      exact (congrArg₂ (· + ·) hr.timestamp htime).trans hback

theorem Sender.bytes_queued {out : Buffer} {bs : List UInt8} {t : MediaHeaderTracker} {k : Nat}
    (h : out.peek = s.out.peek ++ bs) :
    Sender.bytes { s with out, tracker := t, chunkSize := k } = s.bytes ++ bs := by
  rw [Sender.bytes, Sender.bytes, h, List.append_assoc]

/-- Which slot the tracker uses decides the chunk stream, and the other way round. -/
theorem media_slot_csid (f g : FrameType) :
    (mediaChunkStream f).2.2 = (mediaChunkStream g).2.2 ↔
      (mediaChunkStream f).1 = (mediaChunkStream g).1 := by
  cases f <;> cases g <;> decide

/-- The tracker and the peers stay in step when a media header is sent. -/
theorem commit_remembers (hm : Mirrors s ids c ps) {h : MediaFirstHeader} {ft₀ : FrameType}
    (hcsid : h.csid = (mediaChunkStream ft₀).1) (hslot : h.slot = (mediaChunkStream ft₀).2.2)
    (hrem : Remembers ctx h.current) (ft : FrameType) (prev : MediaOutHeader)
    (hprev : Function.update s.tracker.last h.slot (some h.current) (mediaChunkStream ft).2.2 =
      some prev) :
    Remembers (Function.update ps h.csid { ctx } (mediaChunkStream ft).1).ctx prev := by
  by_cases he : (mediaChunkStream ft).1 = h.csid
  · have hsame : (mediaChunkStream ft).2.2 = h.slot := by
      rw [hslot, media_slot_csid, he, hcsid]
    rw [hsame, Function.update_self] at hprev
    cases hprev
    rw [he, Function.update_self]
    exact hrem
  · have hother : (mediaChunkStream ft).2.2 ≠ h.slot := by
      rw [hslot, Ne, media_slot_csid, ← hcsid]
      exact he
    rw [Function.update_of_ne hother] at hprev
    rw [Function.update_of_ne he]
    exact hm.last ft prev hprev

/-- Messages off the media chunk streams leave the tracker's headers in place. -/
theorem Mirrors.off_media (hm : Mirrors s ids c ps) (hoff : csid ∉ [4, 5, 6]) (ft : FrameType)
    (prev : MediaOutHeader) (hprev : s.tracker.last (mediaChunkStream ft).2.2 = some prev) :
    Remembers (Function.update ps csid { ctx } (mediaChunkStream ft).1).ctx prev := by
  have hne : (mediaChunkStream ft).1 ≠ csid := fun h => hoff (h ▸ media_csid_mem ft)
  rw [Function.update_of_ne hne]
  exact hm.last ft prev hprev

def Mirrored (lim : Limits) (ids : List Nat) (s : Sender) (c : Nat) (ps : Nat → Peer)
    (item : Outbound) (s' : Sender) : Prop :=
  ∃ ws c' qs, s'.bytes = s.bytes ++ (ws.map Chunk.bytes).flatten ∧
    Sends resizes lim {} ids c ps ws [sentMessage item] c' qs ∧ Mirrors s' ids c' qs

/-- A media message is one that a conforming peer may send. -/
theorem media_mirrored {compact : Bool} {msg : MediaMessageInfo} {t : MediaHeaderTracker}
    {out : Buffer} (hn : ids.Nodup) (hm : Mirrors s ids c ps)
    (mem : (mediaChunkStream msg.frameType).1 ∈ ids)
    (hroom : MessageRoom lim {} payload.length)
    (hw : (writeMediaMessage s.tracker compact msg payload s.chunkSize).on s.out = (.ok t, out)) :
    Mirrored lim ids s c ps (.media compact msg payload) { s with out, tracker := t } := by
  obtain ⟨h, hc, rfl, hpeek⟩ := write_media_message_ok hw
  have hcsid := hc.csid
  have hslot := hc.slot
  have hcur := hc.current
  rw [← hcsid] at mem
  obtain ⟨hknown, hrem, hext⟩ := @chosen_next (ps h.csid).ctx payload s.tracker msg h hc
    (by rw [hslot, hcsid]; exact hm.last msg.frameType) (payload.take c)
  have hvalid : ValidCsid h.csid := hcsid ▸ media_csid_valid msg.frameType
  have hmsg : (((ps h.csid).ctx.next (wireFirst h.csid h.fmt h.tsField h.current.msgLength
      h.current.msgTypeId h.current.msgStreamId (payload.take c))).message h.csid payload) =
      sentMessage (.media compact msg payload) := by
    rw [Context.message, hrem.timestamp, hrem.typeId, hrem.streamId, hcur, hcsid]
    rfl
  have hlen : payload.length = h.current.msgLength := by rw [hcur]
  have hsends := written_sends hn hm mem (hm.idle h.csid mem) hvalid hc.fmt_le
    (hlen ▸ hc.length_le) hknown (hlen.trans hrem.length.symm) hext.symm hroom
  have hnone : resizes (sentMessage (.media compact msg payload)) = none :=
    if_neg (media_type msg.frameType).1
  rw [hmsg, hnone] at hsends
  refine ⟨_, _, _, Sender.bytes_queued ?_, hsends, hm.size, hm.size_ge, hm.advance _ _,
    commit_remembers hm hcsid hslot hrem⟩
  rw [hpeek, mediaBytes, written_bytes hm hc.fmt_le hc.length_le]

theorem message_mirrored {msg : ChunkMessage} {payloadLen : Nat} {out : Buffer} (hn : ids.Nodup)
    (hm : Mirrors s ids c ps) (hreg : Regular (.message msg payload payloadLen))
    (mem : msg.csid ∈ ids) (hroom : MessageRoom lim {} (payload.take payloadLen).length)
    (hw : (chunkWrite msg payload payloadLen s.chunkSize).on s.out = (.ok (), out)) :
    Mirrored lim ids s c ps (.message msg payload payloadLen) { s with out } := by
  obtain ⟨ws, ctx, hpeek, hsends⟩ := absolute_sends hn hm mem hroom hw
  have hnone : resizes (sentMessage (.message msg payload payloadLen)) = none := if_neg hreg.2.1
  refine ⟨ws, _, _, Sender.bytes_queued hpeek, hsends, ?_⟩
  change Mirrors _ ids ((resizes (sentMessage (.message msg payload payloadLen))).getD c) _
  rw [hnone]
  exact ⟨hm.size, hm.size_ge, hm.advance _ _, hm.off_media hreg.1⟩

/-- A new chunk size takes effect after its message. -/
theorem size_mirrored {v : UInt32} {out : Buffer} (hn : ids.Nodup) (hm : Mirrors s ids c ps)
    (hreg : Regular (.setChunkSize ts sid v)) (mem : 2 ∈ ids) (hroom : MessageRoom lim {} 4)
    (hw : (chunkWrite (Sender.setChunkSizeHeader ts sid) (writeSetChunkSize v) 4
      s.chunkSize).on s.out = (.ok (), out)) :
    Mirrored lim ids s c ps (.setChunkSize ts sid v) { s with out, chunkSize := v.toNat } := by
  have hlen : (writeSetChunkSize v).length = 4 := Bytes.to_be_length ..
  have hfour : (writeSetChunkSize v).take 4 = writeSetChunkSize v :=
    List.take_of_length_le (Nat.le_of_eq hlen)
  obtain ⟨ws, ctx, hpeek, hsends⟩ := @absolute_sends s ids c ps lim (writeSetChunkSize v)
    (Sender.setChunkSizeHeader ts sid) 4 out hn hm mem (by rw [hfour, hlen]; exact hroom) hw
  rw [hfour] at hsends
  have hsize : resizes (sentMessage (.setChunkSize ts sid v)) =
      some (min v.toNat maxPeerChunkSize) := by
    rw [resizes, sentMessage, if_pos rfl, read_written_chunk_size hreg]
    rfl
  refine ⟨ws, _, _, Sender.bytes_queued hpeek, hsends, ?_⟩
  change Mirrors _ ids ((resizes (sentMessage (.setChunkSize ts sid v))).getD c) _
  rw [hsize]
  exact ⟨rfl, hreg.1, hm.advance _ _, @Mirrors.off_media s ids c 2 ps ctx hm (by decide)⟩

theorem queue_mirrored (hn : ids.Nodup) (hm : Mirrors s ids c ps)
    (hreg : Regular item) (mem : (sentMessage item).csid ∈ ids)
    (hroom : MessageRoom lim {} (sentMessage item).payload.length)
    (hq : s.queue item = .ok s') : Mirrored lim ids s c ps item s' := by
  cases item with
  | media compact msg payload =>
    rw [Sender.queue] at hq
    split at hq
    · rename_i hw
      cases hq
      exact media_mirrored hn hm mem hroom hw
    · cases hq
  | message msg payload payloadLen =>
    rw [Sender.queue] at hq
    split at hq
    · rename_i hw
      cases hq
      exact message_mirrored hn hm hreg mem hroom hw
    · cases hq
  | setChunkSize ts sid v =>
    have hlen : (writeSetChunkSize v).length = 4 := Bytes.to_be_length ..
    rw [Sender.queue] at hq
    split at hq
    · rename_i hw
      cases hq
      exact size_mirrored hn hm hreg mem (hlen ▸ hroom) hw
    · cases hq

theorem Mirrors.flush (hm : Mirrors s ids c ps) (n : Nat) :
    Mirrors { s with sent := s.sent ++ s.out.peek.take n, out := s.out.drain n } ids c ps ∧
      Sender.bytes { s with sent := s.sent ++ s.out.peek.take n, out := s.out.drain n } =
        s.bytes := by
  refine ⟨⟨hm.size, hm.size_ge, hm.idle, hm.last⟩, ?_⟩
  rw [Sender.bytes, Sender.bytes, Buffer.peek_drain, List.append_assoc, List.take_append_drop]

/-- What was queued fits the wire's 24-bit length field. -/
theorem wire_length_le (hq : s.queue item = .ok s') :
    (sentMessage item).payload.length ≤ rtmpWireMaxMsgLength := by
  cases item with
  | media compact msg payload =>
    rw [Sender.queue] at hq
    split at hq
    · rename_i hw
      obtain ⟨h, hc, -⟩ := write_media_message_ok hw
      exact hc.length_le
    · cases hq
  | message msg payload payloadLen =>
    rw [Sender.queue] at hq
    split at hq
    · rename_i hw
      obtain ⟨hok, -⟩ := chunk_write_ok hw
      change (payload.take payloadLen).length ≤ _
      rw [List.length_take]
      exact Nat.le_trans (Nat.min_le_left ..) (hok.length ▸ hok.length_le)
    · cases hq
  | setChunkSize ts sid v =>
    have hlen : (writeSetChunkSize v).length = 4 := Bytes.to_be_length ..
    change (writeSetChunkSize v).length ≤ _
    rw [hlen]
    decide

structure Receivable (msgLength : Nat) (ids : List Nat) (item : Outbound) : Prop where
  regular : Regular item
  mem : (sentMessage item).csid ∈ ids
  length_le : (sentMessage item).payload.length ≤ msgLength

/-- A whole run of the sender is a run of conforming peers. -/
theorem run_mirrored (hn : ids.Nodup) (hcap : rtmpWireMaxMsgLength ≤ lim.reassembly)
    (hactive : 0 < lim.active) (steps : List SendStep)
    (hitems : ∀ item ∈ queued steps, Receivable lim.msgLength ids item)
    (hm : Mirrors s ids c ps) (hr : s.run steps = .ok s') :
    ∃ ws c' qs, s'.bytes = s.bytes ++ (ws.map Chunk.bytes).flatten ∧
      Sends resizes lim {} ids c ps ws ((queued steps).map sentMessage) c' qs := by
  induction steps generalizing s c ps with
  | nil =>
    cases hr
    exact ⟨[], c, ps, by simp, .nil c ps⟩
  | cons step steps ih =>
    rw [Sender.run, List.foldlM_cons] at hr
    cases step with
    | flush n =>
      obtain ⟨hm', hbytes⟩ := hm.flush n
      rw [← hbytes]
      exact ih hitems hm' hr
    | queue item =>
      cases hq : s.queue item with
      | error e =>
        rw [Sender.step, hq] at hr
        cases hr
      | ok s₁ =>
        rw [Sender.step, hq] at hr
        obtain ⟨hreg, hmem, hlen⟩ := hitems item List.mem_cons_self
        have hroom : MessageRoom lim {} (sentMessage item).payload.length :=
          ⟨hlen, (Nat.zero_add _).symm ▸ Nat.le_trans (wire_length_le hq) hcap, hactive⟩
        obtain ⟨ws, c₁, qs, hbytes, hsends, hm₁⟩ := queue_mirrored hn hm hreg hmem hroom hq
        obtain ⟨vs, c', rs, hrest, hlater⟩ :=
          ih (fun i hi => hitems i (List.mem_cons_of_mem _ hi)) hm₁ hr
        refine ⟨ws ++ vs, c', rs, ?_, hsends.append hlater⟩
        rw [hrest, hbytes, List.map_append, List.flatten_append, List.append_assoc]

theorem mirrors_new (ids : List Nat) : Mirrors {} ids defaultChunkSize (fun _ => {}) where
  size := rfl
  size_ge := Nat.le_refl _
  idle := fun _ _ => rfl
  last := fun _ _ h => by cases h

/-- The bytes of a run from a new sender, as chunks that a new reader can follow. -/
theorem new_run_mirrored (msgLength : UInt32) (hn : ids.Nodup) {steps : List SendStep}
    (hitems : ∀ item ∈ queued steps, Receivable msgLength.toNat ids item)
    (hr : Sender.run {} steps = .ok s) :
    ∃ ws c' qs, s.bytes = (ws.map Chunk.bytes).flatten ∧
      Sends resizes ⟨msgLength.toNat, defaultMaxActiveCsids.toNat,
        maxReassemblyBytesPerConn.toNat⟩ {} ids defaultChunkSize (fun _ => {}) ws
        ((queued steps).map sentMessage) c' qs := by
  obtain ⟨ws, c', qs, hbytes, hsends⟩ := @run_mirrored _ _ _ _ _ ⟨msgLength.toNat,
    defaultMaxActiveCsids.toNat, maxReassemblyBytesPerConn.toNat⟩ hn
    (by decide : rtmpWireMaxMsgLength ≤ maxReassemblyBytesPerConn.toNat)
    (by decide : 0 < defaultMaxActiveCsids.toNat) steps hitems (mirrors_new ids) hr
  have hnil : Sender.bytes {} = [] := by
    rw [Sender.bytes, Buffer.peek_new]
    rfl
  rw [hnil, List.nil_append] at hbytes
  exact ⟨ws, c', qs, hbytes, hsends⟩

/-- Whatever is written, media with compressed headers, other messages and new chunk sizes, a
fresh reader decodes to exactly the messages written, in order, as long as they stay within
its message length and its table of chunk streams. -/
theorem written_items_decode (msgLength : UInt32) (ids : List Nat) (hn : ids.Nodup)
    (hids : ids.length ≤ maxChunkStreams) (steps : List SendStep)
    (hitems : ∀ item ∈ queued steps, Receivable msgLength.toNat ids item)
    (s : Sender) (hr : Sender.run {} steps = .ok s) :
    DecodesTo applyControl
      (ChunkRegistry.new.withLimits msgLength defaultMaxActiveCsids maxReassemblyBytesPerConn)
      s.bytes ((queued steps).map sentMessage) := by
  obtain ⟨ws, c', qs, hbytes, hsends⟩ := new_run_mirrored msgLength hn hitems hr
  rw [hbytes]
  apply sends_decode hn (by rw [Nat.zero_add]; exact hids) hsends (control_resizes ?_) rfl
    (sync_new _ _ _ ids)
  intro m hm
  obtain ⟨item, hi, rfl⟩ := List.mem_map.mp hm
  exact regular_not_abort (hitems item hi).regular

theorem first_header_len_le (hc : ValidCsid csid) : firstHeaderLen csid fmt ts ≤ 18 := by
  have hb := (basic_form_length (basic_header_form hc fmt)).2
  unfold firstHeaderLen
  dsimp only
  split <;> split <;> omega

/-- A media message that fits one chunk is queued whenever the buffer has room for it. -/
theorem media_queue_ok {compact : Bool} {msg : MediaMessageInfo} {h : MediaFirstHeader}
    (hc : s.tracker.choose compact msg.frameType msg.msgStreamId msg.timestamp payload.length =
      .ok h)
    (hone : payload.length ≤ sizeOrDefault s.chunkSize)
    (hfit : s.out.peek.length + 18 + payload.length ≤ bufferMaxSize) :
    ∃ out, s.queue (.media compact msg payload) =
        .ok { s with out, tracker := s.tracker.commit h } ∧
      out.peek.length ≤ s.out.peek.length + 18 + payload.length := by
  have hch := choose_cases hc
  have hvalid : ValidCsid h.csid := hch.csid ▸ media_csid_valid msg.frameType
  have hpos := size_or_default_pos s.chunkSize
  have hlen : (mediaBytes h msg.timestamp payload s.chunkSize).length ≤ 18 + payload.length := by
    rw [mediaBytes, List.length_append, first_header_length hch.fmt_le, bodyBytes,
      Slices.joined_chunks_length _ hpos, Nat.div_eq_of_lt (by omega), Nat.zero_mul]
    exact Nat.add_le_add (first_header_len_le hvalid) (Nat.le_refl _)
  obtain ⟨out, hw, hpeek⟩ := (write_media_message_spec hc s.chunkSize).appends s.out (by omega)
  refine ⟨out, by rw [Sender.queue, hw], ?_⟩
  rw [hpeek, List.length_append]
  omega

/-- Two audio messages, the second with a compressed header. -/
theorem compact_pair_decodes :
    ∃ s, Sender.run {} [.queue (.media true ⟨.audio, 1, 5⟩ [7]),
        .queue (.media true ⟨.audio, 1, 8⟩ [9])] = .ok s ∧
      DecodesTo applyControl .new s.bytes [⟨4, 5, 8, 1, [7]⟩, ⟨4, 8, 8, 1, [9]⟩] := by
  obtain ⟨out₁, h₁, p₁⟩ := @media_queue_ok {} [7] true ⟨.audio, 1, 5⟩ _ rfl (by decide)
    (by rw [Buffer.peek_new]; decide)
  have hp₁ : out₁.peek.length ≤ 19 := by
    rw [Buffer.peek_new] at p₁
    exact p₁
  obtain ⟨out₂, h₂, -⟩ := @media_queue_ok
    { out := out₁, tracker := MediaHeaderTracker.commit {} ⟨4, 0, 5, 0, ⟨1, 5, 1, 8⟩⟩ } [9] true
    ⟨.audio, 1, 8⟩ _ rfl (by decide : 1 ≤ sizeOrDefault defaultChunkSize)
    (Nat.le_trans (Nat.add_le_add_right (Nat.add_le_add_right hp₁ 18) 1) (by decide))
  have hr : Sender.run {} [.queue (.media true ⟨.audio, 1, 5⟩ [7]),
      .queue (.media true ⟨.audio, 1, 8⟩ [9])] =
      .ok { out := out₂, tracker := MediaHeaderTracker.commit (MediaHeaderTracker.commit {}
        ⟨4, 0, 5, 0, ⟨1, 5, 1, 8⟩⟩) ⟨4, 2, 3, 0, ⟨1, 8, 1, 8⟩⟩ } := by
    rw [Sender.run, List.foldlM_cons, Sender.step, h₁]
    exact congrArg (fun r => r >>= fun s => pure s) h₂
  refine ⟨_, hr, ?_⟩
  apply written_items_decode defaultMaxMsgLength [4] (by decide) (by decide) _ ?_ _ hr
  intro item hi
  rcases List.mem_pair.mp hi with rfl | rfl
  · exact ⟨trivial, by decide, by decide⟩
  · exact ⟨trivial, by decide, by decide⟩

def emptyMessages (ids : List Nat) : List SendStep :=
  ids.map (fun id => .queue (.message { csid := id, msgTypeId := 20 } [] 0))

theorem queued_empty (ids : List Nat) :
    queued (emptyMessages ids) =
      ids.map (fun id => .message { csid := id, msgTypeId := 20 } [] 0) := by
  induction ids with
  | nil => rfl
  | cons id ids ih => exact congrArg _ ih

theorem empty_messages_run (hids : ∀ id ∈ ids, ValidCsid id)
    (hfit : s.out.peek.length + 18 * ids.length ≤ bufferMaxSize) :
    ∃ s', s.run (emptyMessages ids) = .ok s' := by
  induction ids generalizing s with
  | nil => exact ⟨s, rfl⟩
  | cons id ids ih =>
    have hw : Writable { csid := id, msgTypeId := 20 } [] 0 :=
      ⟨hids id List.mem_cons_self, rfl, Nat.zero_le _, rfl, Nat.zero_le _⟩
    have hlen : (messageBytes { csid := id, msgTypeId := 20 } [] s.chunkSize).length ≤ 18 := by
      rw [messageBytes, List.length_append, first_header_length (Nat.zero_le 2), bodyBytes,
        Slices.chunks_nil]
      exact first_header_len_le (hids id List.mem_cons_self)
    rw [List.length_cons] at hfit
    obtain ⟨out, hout, hpeek⟩ := (chunk_write_spec hw s.chunkSize).appends s.out
      (by rw [List.take_nil]; omega)
    rw [List.take_nil] at hpeek
    obtain ⟨s', hs'⟩ := @ih { s with out } (fun i hi => hids i (List.mem_cons_of_mem _ hi)) (by
      change out.peek.length + _ ≤ _
      rw [hpeek, List.length_append]
      omega)
    refine ⟨s', ?_⟩
    rw [emptyMessages, List.map_cons, Sender.run, List.foldlM_cons, Sender.step, Sender.queue,
      hout]
    exact hs'

/-- A reader keeps at most 4096 chunk streams: empty messages on 4097 of them are all written,
and not all delivered. -/
theorem too_many_streams_refused :
    ∃ steps s, (∀ item ∈ queued steps, Regular item ∧ (sentMessage item).payload = []) ∧
      Sender.run {} steps = .ok s ∧
      ¬DecodesTo applyControl .new s.bytes ((queued steps).map sentMessage) := by
  have hvalid : ∀ id ∈ List.range' 7 4097, ValidCsid id := by
    intro id hid
    rw [List.mem_range'_1] at hid
    exact ⟨Nat.le_trans (by decide) hid.1, Nat.le_trans (Nat.le_of_lt hid.2) (by decide)⟩
  obtain ⟨s, hs⟩ := @empty_messages_run {} _ hvalid
    (by rw [Buffer.peek_new, List.length_range']; decide)
  refine ⟨emptyMessages (List.range' 7 4097), s, ?_, hs, ?_⟩
  · intro item hi
    rw [queued_empty] at hi
    obtain ⟨id, hid, rfl⟩ := List.mem_map.mp hi
    rw [List.mem_range'_1] at hid
    refine ⟨⟨?_, (by decide : (20 : UInt8) ≠ ctrlSetChunkSize),
      (by decide : (20 : UInt8) ≠ ctrlAbortMessage)⟩, rfl⟩
    simp only [List.mem_cons, List.not_mem_nil, or_false, not_or]
    omega
  · intro hdec
    obtain ⟨d, hd, hgood, hsmall⟩ := hdec (s.bytes.map (fun b => [b]))
      (List.flatMap_def.symm.trans (List.flatMap_singleton' _))
    have hrefused := hsmall (by
      intro p hp
      obtain ⟨b, -, rfl⟩ := List.mem_map.mp hp
      exact (by decide : 1 ≤ bufferMaxSize / 2))
    have hmsgs := (hgood hrefused).messages
    have hnodup : (List.range' 7 4097).Nodup := List.nodup_range' 1
    have hle := delivered_streams_bounded (new_accounted _ _ _) hd hnodup (by
      intro id hid
      have hmem : (⟨id, 0, 20, 0, []⟩ : Message) ∈ d.delivered.map meaning := by
        rw [hmsgs, queued_empty, List.map_map]
        exact List.mem_map.mpr ⟨id, hid, rfl⟩
      obtain ⟨x, hx, hmean⟩ := List.mem_map.mp hmem
      exact ⟨x, hx, congrArg Message.csid hmean⟩)
    rw [List.length_range'] at hle
    exact absurd hle (by decide)

end LibRtmp.Proofs
