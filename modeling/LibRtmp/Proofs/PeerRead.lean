import LibRtmp.Wire.Peer
import LibRtmp.Proofs.Accounting

namespace LibRtmp.Proofs

open Wire

variable {s : ChunkStream} {ctx : Context}

def applied (s : ChunkStream) (w : Chunk) : ChunkStream :=
  (stampHeader (s.restarted w.header.fmt) w.header.fmt w.header.fields w.time
    w.ext.isSome).fed w.data

structure Accepts (reg : ChunkRegistry) (w : Chunk) : Prop where
  wf : w.WellFormed
  inherit : 2 ≤ w.header.fmt → ∃ s, reg.get w.csid = some s ∧ s.hasMessageHeader = true
  fresh : w.header.fmt = 2 → ∀ s, reg.get w.csid = some s → s.reassemblyBytesRead = 0
  ext : w.ext.isSome = extTsForAvail reg w.header.fmt w.csid w.header.ts
  length_le : effLenForAvail reg w.header.fmt w.csid w.header.length ≤ reg.maxMsgLength.toNat
  data : w.data.length = min (effLenForAvail reg w.header.fmt w.csid w.header.length -
    reassemblyReadForAvail reg w.header.fmt w.csid) (chunkSzForAvail reg w.csid)
  cap : overReassemblyCap reg w.header.fmt w.csid w.data.length = false
  room : reg.canGetOrCreate w.csid = true

variable {reg : ChunkRegistry} {w : Chunk}

theorem Accepts.ready (ha : Accepts reg w) (t : List UInt8) :
    Ready (w.bytes ++ t) reg w.head where
  basic := ha.wf.basic_read t
  field := w.header.field_size
  inherit := ha.inherit
  fresh := ha.fresh
  ext := by
    change w.ext.isSome = extTsForAvail reg w.header.fmt w.csid
      (peekTimestamp (w.bytes ++ t) w.header.fmt w.basic.length)
    rw [ha.wf.ts_read]
    exact ha.ext
  length_le := by
    change effLenForAvail reg w.header.fmt w.csid
      (peekLength (w.bytes ++ t) w.header.fmt w.basic.length) ≤ _
    rw [ha.wf.length_read]
    exact ha.length_le
  to_read := by
    change w.data.length = min (effLenForAvail reg w.header.fmt w.csid
      (peekLength (w.bytes ++ t) w.header.fmt w.basic.length) - _) _
    rw [ha.wf.length_read]
    exact ha.data
  cap := ha.cap
  room := ha.room
  avail := by
    have hl := congrArg List.length (w.drop_all t)
    rw [List.length_drop, List.length_append] at hl
    have hb : w.bytes.length = w.head.totalHeader + w.head.toRead := by
      simp [Chunk.bytes, ChunkHead.totalHeader, Chunk.head, Header.bytes_length,
        Chunk.ext_length, Nat.add_assoc]
    rw [List.length_append]
    omega

theorem received_eq_applied (hw : w.WellFormed) (s : ChunkStream) (t : List UInt8) :
    s.received w.head (w.bytes ++ t) = applied s w := by
  rw [ChunkStream.received, ChunkStream.headed, hw.head_fields, hw.head_time, w.head_data]
  rfl

/-- Reading a wire chunk: exactly its bytes go, and only its stream changes. -/
theorem read_wire (hreg : Accounted reg) (ha : Accepts reg w) (buf : Buffer) (msg : ChunkMessage)
    {t : List UInt8} (hb : buf.peek = w.bytes ++ t) :
    ∃ c reg', c.peek = t ∧ Accounted reg' ∧
      Replaced reg w.csid (applied (reg.opened w.csid) w).settled reg' ∧
      chunkRead buf reg msg =
        if (applied (reg.opened w.csid) w).complete then
          (⟨c, reg', (applied (reg.opened w.csid) w).message w.head,
            (applied (reg.opened w.csid) w).reassemblyBuf.peek⟩, .ok 1)
        else (⟨c, reg', { msg with isComplete := false }, []⟩, .ok 0) := by
  have hr : Ready buf.peek reg w.head := by
    rw [hb]
    exact ha.ready t
  obtain ⟨reg1, idx, c, hl, hc, hread⟩ := chunk_read_received hreg buf msg hr
  have hacc := hreg.received hr hl
  have happ : (reg.opened w.head.csid).received w.head buf.peek =
      applied (reg.opened w.csid) w := by
    rw [hb]
    exact received_eq_applied ha.wf _ t
  rw [happ] at hread hacc
  refine ⟨c, _, ?_, hacc, hreg.replaced hl hacc, hread⟩
  rw [hc, hb, w.drop_all]

structure Headed (s : ChunkStream) (ctx : Context) : Prop where
  started : s.hasMessageHeader = ctx.started
  timestamp : s.type0Timestamp = ctx.timestamp
  length : s.type0MsgLength = ctx.length
  typeId : s.type0MsgTypeId = ctx.typeId
  streamId : s.type0MsgStreamId = ctx.streamId
  ext : s.type0ExtTs = ctx.ext
  delta : s.lastDelta = ctx.delta

/-- A starting header moves the stream as it moves the context. -/
theorem Headed.next (hh : Headed s ctx)
    (hz : s.reassemblyBytesRead = 0) (w : Chunk) :
    Headed (stampHeader (s.restarted w.header.fmt) w.header.fmt w.header.fields w.time
      w.ext.isSome) (ctx.next w) := by
  obtain ⟨h1, h2, h3, h4, h5, h6, h7⟩ := hh
  unfold Context.next
  cases w.header with
  | full ts n ty sid => exact ⟨rfl, rfl, rfl, rfl, rfl, rfl, rfl⟩
  | sameStream ts n ty => exact ⟨rfl, by rw [← h2]; rfl, rfl, rfl, h5, rfl, rfl⟩
  | sameLength ts => exact ⟨h1, by rw [← h2]; rfl, h3, h4, h5, rfl, rfl⟩
  | same =>
    have hst : stampHeader (s.restarted 3) 3 Header.same.fields w.time w.ext.isSome =
        { s.restarted 3 with type0Timestamp := s.type0Timestamp + s.lastDelta } := by
      simp [stampHeader, ChunkStream.restarted, hz]
    change Headed (stampHeader (s.restarted 3) 3 _ _ _) _
    rw [hst]
    exact ⟨h1, by rw [← h2, ← h7], h3, h4, h5, h6, h7⟩

/-- A continuation header leaves the stream as it is. -/
theorem stamp_same (hn : s.reassemblyBytesRead ≠ 0) (ts : UInt32)
    (ext : Bool) : stampHeader (s.restarted 3) 3 Header.same.fields ts ext = s := by
  simp [stampHeader, ChunkStream.restarted, hn]

/-- Same headers on both sides, and what is buffered is what was sent of the open message. -/
structure Agrees (s : ChunkStream) (p : Peer) : Prop where
  headed : Headed s p.ctx
  sent : s.reassemblyBuf.peek = p.sent
  idle : p.rest = [] → p.sent = []
  begun : p.rest ≠ [] → p.sent ≠ []
  total : p.rest ≠ [] → p.sent.length + p.rest.length = p.ctx.length

structure Room (reg : ChunkRegistry) (csid length : Nat) (p : Peer) (w : Chunk) : Prop where
  length_le : length ≤ reg.maxMsgLength.toNat
  bytes : w.data ≠ [] →
    reg.reassemblyBytesInUse + w.data.length ≤ reg.maxReassemblyBytes.toNat
  active : p.rest = [] → reg.reassemblingCount < reg.maxActiveCsids.toNat
  table : reg.get csid = none → reg.streams.length < maxChunkStreams

section Opened

variable (reg) (csid : Nat)

theorem eff_len_opened (fmt lenRaw : Nat) : effLenForAvail reg fmt csid lenRaw =
    if fmt ≤ 1 then lenRaw else (reg.opened csid).type0MsgLength := by
  unfold effLenForAvail ChunkRegistry.opened
  cases reg.get csid <;> rfl

theorem already_read_opened (fmt : Nat) : reassemblyReadForAvail reg fmt csid =
    if fmt ≤ 1 then 0 else (reg.opened csid).reassemblyBytesRead := by
  unfold reassemblyReadForAvail ChunkRegistry.opened
  cases reg.get csid <;> rfl

theorem chunk_sz_opened : chunkSzForAvail reg csid = (reg.opened csid).chunkSize := by
  unfold chunkSzForAvail ChunkRegistry.opened
  cases reg.get csid <;> rfl

theorem ext_ts_opened (fmt tsRaw : Nat) : extTsForAvail reg fmt csid tsRaw =
    (decide (tsRaw ≥ 0xFFFFFF) || (decide (fmt = 3) && (reg.opened csid).type0ExtTs)) := by
  unfold extTsForAvail ChunkRegistry.opened
  cases reg.get csid <;> rfl

/-- Only a registered stream has seen a header. -/
theorem get_of_header {reg : ChunkRegistry} {csid : Nat}
    (h : (reg.opened csid).hasMessageHeader = true) :
    reg.get csid = some (reg.opened csid) := by
  unfold ChunkRegistry.opened at h ⊢
  cases hg : reg.get csid with
  | some s => rfl
  | none =>
    rw [hg] at h
    cases h

theorem not_over_cap {fmt n : Nat}
    (h : n ≠ 0 → reg.reassemblyBytesInUse + n ≤ reg.maxReassemblyBytes.toNat) :
    overReassemblyCap reg fmt csid n = false := by
  simp only [overReassemblyCap, Bool.and_eq_false_iff, decide_eq_false_iff_not, Nat.not_lt]
  by_cases hn : n = 0
  · exact .inl (Nat.le_of_eq hn)
  · have := h hn
    exact .inr (by omega)

theorem room_to_create
    (ha : (reg.opened csid).reassembling = true ∨
      reg.reassemblingCount < reg.maxActiveCsids.toNat)
    (ht : reg.get csid = none → reg.streams.length < maxChunkStreams) :
    reg.canGetOrCreate csid = true := by
  unfold ChunkRegistry.canGetOrCreate
  cases hs : reg.slot? csid with
  | some idx =>
    rw [ChunkRegistry.opened_of_slot hs] at ha
    rcases ha with hr | hl
    · exact Bool.or_eq_true_iff.mpr (.inl hr)
    · exact Bool.or_eq_true_iff.mpr (.inr (decide_eq_true hl))
  | none =>
    rw [ChunkRegistry.opened_fresh hs] at ha
    have hlt : reg.reassemblingCount < reg.maxActiveCsids.toNat := by
      rcases ha with hf | hl
      · cases hf
      · exact hl
    have hlen := ht (by rw [ChunkRegistry.get, hs]; rfl)
    simp [ChunkRegistry.activeReassembling, Nat.not_le_of_lt hlt, hlen]

end Opened

variable {csid c : Nat} {p p' : Peer} {m : Option Message}

theorem Agrees.bytes_read (hag : Agrees s p) (ht : Tracked reg s) :
    s.reassemblyBytesRead = p.sent.length := by
  rw [ht.counted, Buffer.available_eq, hag.sent]

theorem next_length (ctx : Context) (w : Chunk) : (ctx.next w).length =
    if w.header.fmt ≤ 1 then w.header.length else ctx.length := by
  unfold Context.next
  cases w.header <;> rfl

theorem announced_ext {hd : Header} (hf : hd.Fits) :
    ctx.announces hd = (decide (hd.ts ≥ 0xFFFFFF) || (decide (hd.fmt = 3) && ctx.ext)) := by
  have hts := hf.1
  have hiff : hd.ts = 0xFFFFFF ↔ hd.ts ≥ 0xFFFFFF := by omega
  cases hd with
  | same => rfl
  | full _ _ _ _ => simpa [Context.announces, Header.fmt] using hiff
  | sameStream _ _ _ => simpa [Context.announces, Header.fmt] using hiff
  | sameLength _ => simpa [Context.announces, Header.fmt] using hiff

/-- A conforming chunk with room for it is accepted. -/
theorem emits_accepted (hreg : Accounted reg) (hag : Agrees (reg.opened csid) p)
    (hem : Emits c csid p w p' m) (hc : reg.defaultSize = c)
    (hroom : Room reg csid (messageLength p w) p w) : Accepts reg w := by
  have ht := hreg.opened_tracked csid
  have hread := hag.bytes_read ht
  have hbytes : w.data.length ≠ 0 →
      reg.reassemblyBytesInUse + w.data.length ≤ reg.maxReassemblyBytes.toNat := by
    intro hn
    exact hroom.bytes (fun he => hn (by rw [he]; rfl))
  have hlen := hroom.length_le
  cases hem with
  | @start ctx w payload wf id known ext length data =>
    subst id
    rw [messageLength, if_pos rfl, next_length] at hlen
    rw [next_length] at length
    have hz : (reg.opened w.csid).reassemblyBytesRead = 0 := hread
    constructor
    case wf => exact wf
    case inherit =>
      intro h2
      have hs : (reg.opened w.csid).hasMessageHeader = true :=
        hag.headed.started.trans (known h2)
      exact ⟨_, get_of_header hs, hs⟩
    case fresh =>
      intro _ s hs
      rw [ChunkRegistry.opened, hs] at hz
      exact hz
    case ext =>
      rw [ext, ext_ts_opened, hag.headed.ext, announced_ext wf.fits]
    case length_le =>
      rw [eff_len_opened, hag.headed.length]
      exact hlen
    case data =>
      rw [eff_len_opened, already_read_opened, chunk_sz_opened, hz, hag.headed.length, ht.size, hc,
        ← length, data, List.length_take, ite_self, Nat.sub_zero, Nat.min_comm]
    case cap => exact not_over_cap reg w.csid hbytes
    case room => exact room_to_create reg w.csid (.inr (hroom.active rfl)) hroom.table
  | @more ctx sent rest w wf id fmt ext open_ data =>
    subst id
    have hsent := hag.begun open_
    have hn : (reg.opened w.csid).reassemblyBytesRead ≠ 0 := by
      rw [hread]
      exact fun he => hsent (List.eq_nil_of_length_eq_zero he)
    have hflag := ht.flag.mp hn
    have hs := (ht.unfinished hflag).2
    have hfmt : w.header.fmt = 3 := by rw [fmt]; rfl
    rw [messageLength, if_neg open_] at hlen
    constructor
    case wf => exact wf
    case inherit => exact fun _ => ⟨_, get_of_header hs, hs⟩
    case fresh =>
      intro h2
      rw [hfmt] at h2
      cases h2
    case ext =>
      rw [ext, ext_ts_opened, hfmt, fmt, hag.headed.ext]
      rfl
    case length_le =>
      rw [eff_len_opened, hfmt, if_neg (by decide), hag.headed.length]
      exact hlen
    case data =>
      have htotal : sent.length + rest.length = ctx.length := hag.total open_
      rw [eff_len_opened, already_read_opened, chunk_sz_opened, hfmt, if_neg (by decide),
        if_neg (by decide), hread, hag.headed.length, ht.size, hc, data, List.length_take,
        Nat.min_comm]
      congr 1
      change rest.length = ctx.length - sent.length
      omega
    case cap => exact not_over_cap reg w.csid hbytes
    case room => exact room_to_create reg w.csid (.inl hflag) hroom.table

def meaning (d : Delivery) : Message :=
  ⟨d.msg.csid, d.msg.timestamp, d.msg.msgTypeId, d.msg.msgStreamId, d.payload⟩

theorem applied_peek (hreg : Accounted reg) (ha : Accepts reg w) :
    (applied (reg.opened w.csid) w).reassemblyBuf.peek =
      (if w.header.fmt ≤ 1 then [] else (reg.opened w.csid).reassemblyBuf.peek) ++ w.data := by
  have hp := (ha.ready []).received_peek (hreg.opened_tracked w.csid)
  have hr : (reg.opened w.head.csid).received w.head (w.bytes ++ []) =
      applied (reg.opened w.csid) w := received_eq_applied ha.wf _ []
  rw [hr, w.head_data, ChunkStream.headed, stamp_buf] at hp
  rw [hp]
  simp only [ChunkStream.restarted]
  congr 1
  change (if w.header.fmt ≤ 1 then _ else _ : Buffer).peek = _
  split
  · exact Buffer.peek_reset _
  · rfl

/-- The two sides still agree, also on whether a message is complete. -/
structure Advanced (w : Chunk) (s : ChunkStream) (p' : Peer) (m : Option Message) : Prop where
  agrees : Agrees s.settled p'
  complete : s.complete = m.isSome
  delivers : ∀ msg, m = some msg →
    meaning ⟨s.message w.head, s.reassemblyBuf.peek⟩ = msg ∧
      (s.message w.head).msgLength = msg.payload.length

/-- Appending the sent part of a message to the stream of its context. -/
theorem advanced_of_fed {sent rest : List UInt8}
    (hh : Headed s ctx) (hp : s.reassemblyBuf.peek = sent)
    (hn : s.reassemblyBytesRead = sent.length) (htot : sent.length + rest.length = ctx.length)
    (hsome : rest ≠ [] → sent ≠ []) (w : Chunk) :
    Advanced w s (.after ctx sent rest) (Peer.finished w.csid ctx sent rest) := by
  obtain ⟨h1, h2, h3, h4, h5, h6, h7⟩ := hh
  by_cases hr : rest = []
  · subst hr
    have hc : s.complete = true := by
      apply decide_eq_true
      rw [h3, hn, ← htot]
      exact Nat.le_refl _
    rw [Peer.after, Peer.finished, if_pos rfl, if_pos rfl]
    constructor
    case agrees =>
      rw [ChunkStream.settled, if_pos hc]
      exact ⟨⟨h1, h2, h3, h4, h5, h6, h7⟩, Buffer.peek_take _, fun _ => rfl,
        fun hn => absurd rfl hn, fun hn => absurd rfl hn⟩
    case complete => rw [hc]; rfl
    case delivers =>
      intro msg hm
      cases hm
      refine ⟨?_, ?_⟩
      · simp only [meaning, ChunkStream.message, Context.message, h2, h4, h5, hp]
        rfl
      · exact h3.trans htot.symm
  · have hc : s.complete = false := by
      have hl := List.length_pos_of_ne_nil hr
      apply decide_eq_false
      rw [h3, hn, ← htot]
      omega
    rw [Peer.after, Peer.finished, if_neg hr, if_neg hr]
    constructor
    case agrees =>
      rw [ChunkStream.settled, hc]
      exact ⟨⟨h1, h2, h3, h4, h5, h6, h7⟩, hp, fun he => absurd he hr, hsome, fun _ => htot⟩
    case complete => exact hc
    case delivers =>
      intro msg hm
      cases hm

theorem headed_fed (hh : Headed s ctx) (d : List UInt8) :
    Headed (s.fed d) ctx := by
  obtain ⟨h1, h2, h3, h4, h5, h6, h7⟩ := hh
  exact ⟨h1, h2, h3, h4, h5, h6, h7⟩

/-- The reader follows a conforming peer chunk by chunk. -/
theorem emits_advanced (hreg : Accounted reg) (hag : Agrees (reg.opened csid) p)
    (hem : Emits c csid p w p' m) (hpos : 0 < c) (ha : Accepts reg w) :
    Advanced w (applied (reg.opened csid) w) p' m := by
  have hread := hag.bytes_read (hreg.opened_tracked csid)
  have hpeek := applied_peek hreg ha
  cases hem with
  | @start ctx w payload wf id known ext length data =>
    subst id
    have hz : (reg.opened w.csid).reassemblyBytesRead = 0 := hread
    have he : (reg.opened w.csid).reassemblyBuf.peek = [] := hag.sent
    rw [he, ite_self, List.nil_append, data] at hpeek
    apply advanced_of_fed (headed_fed (hag.headed.next hz w) w.data) hpeek
    · rw [← data]
      simp [ChunkStream.fed, ChunkStream.restarted, hz]
    · rw [← List.length_append, List.take_append_drop, length]
    · intro hr ht
      apply hr
      rcases List.take_eq_nil_iff.mp ht with h0 | hnil
      · omega
      · rw [hnil, List.drop_nil]
  | @more ctx sent rest w wf id fmt ext open_ data =>
    subst id
    have hsent := hag.begun open_
    have hn : (reg.opened w.csid).reassemblyBytesRead ≠ 0 := by
      rw [hread]
      exact fun he => hsent (List.eq_nil_of_length_eq_zero he)
    have htotal : sent.length + rest.length = ctx.length := hag.total open_
    have he : (reg.opened w.csid).reassemblyBuf.peek = sent := hag.sent
    have happ : applied (reg.opened w.csid) w = (reg.opened w.csid).fed w.data := by
      rw [applied, fmt]
      exact congrArg (fun s => ChunkStream.fed s w.data) (stamp_same hn _ _)
    rw [fmt, if_neg (by decide), he, data] at hpeek
    rw [happ] at hpeek ⊢
    apply advanced_of_fed (headed_fed hag.headed w.data) hpeek
    · rw [ChunkStream.fed, hread, data, List.length_append]
    · rw [List.length_append, Nat.add_assoc, ← List.length_append, List.take_append_drop]
      exact htotal
    · intro _ ht
      exact hsent (List.append_eq_nil_iff.mp ht).1

end LibRtmp.Proofs
