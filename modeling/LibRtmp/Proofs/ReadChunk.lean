import LibRtmp.Chunk.Reader
import LibRtmp.Proofs.Registry

namespace LibRtmp

variable (s : ChunkStream)

namespace ChunkHead

def totalHeader (h : ChunkHead) : Nat :=
  h.headerSize + h.msgFieldSize + extTsSize h.extTs

def fields (h : ChunkHead) (p : List UInt8) : MessageFields :=
  messageFields h.fmt ((p.drop h.headerSize).take h.msgFieldSize)

def finalTimestamp (h : ChunkHead) (p : List UInt8) : UInt32 :=
  if h.extTs then UInt32.ofNat (Bytes.ofBe ((p.drop (h.headerSize + h.msgFieldSize)).take 4))
  else UInt32.ofNat (h.fields p).timestamp

def data (h : ChunkHead) (p : List UInt8) : List UInt8 := (p.drop h.totalHeader).take h.toRead

end ChunkHead

namespace ChunkStream

def restarted (s : ChunkStream) (fmt : Nat) : ChunkStream :=
  { s with
    reassemblyBytesRead := if fmt ≤ 1 then 0 else s.reassemblyBytesRead
    reassemblyBuf := if fmt ≤ 1 then s.reassemblyBuf.reset else s.reassemblyBuf }

def headed (s : ChunkStream) (h : ChunkHead) (p : List UInt8) : ChunkStream :=
  stampHeader (s.restarted h.fmt) h.fmt (h.fields p) (h.finalTimestamp p) h.extTs

def fed (s : ChunkStream) (d : List UInt8) : ChunkStream :=
  { s with
    reassemblyBuf := (s.reassemblyBuf.write d).1
    reassemblyBytesRead := s.reassemblyBytesRead + d.length
    chunkReadScratch := [] }

def complete (s : ChunkStream) : Bool := decide (s.type0MsgLength ≤ s.reassemblyBytesRead)

def settled (s : ChunkStream) : ChunkStream :=
  if s.complete then
    { s with
      reassembling := false
      reassemblyBuf := s.reassemblyBuf.take.1
      lastPayload := s.reassemblyBuf.peek
      reassemblyBytesRead := 0 }
  else { s with reassembling := true }

def message (s : ChunkStream) (h : ChunkHead) : ChunkMessage :=
  { csid := h.csid, fmt := h.fmt, timestamp := s.type0Timestamp, msgLength := s.type0MsgLength
    msgTypeId := s.type0MsgTypeId, msgStreamId := s.type0MsgStreamId, isComplete := true }

def received (s : ChunkStream) (h : ChunkHead) (p : List UInt8) : ChunkStream :=
  (s.headed h p).fed (h.data p)

end ChunkStream

namespace Proofs

structure Ready (p : List UInt8) (reg : ChunkRegistry) (h : ChunkHead) : Prop where
  basic : readBasicHeader p = some (h.fmt, h.csid, h.headerSize)
  field : msgFieldSize h.fmt = some h.msgFieldSize
  inherit : 2 ≤ h.fmt → ∃ s, reg.get h.csid = some s ∧ s.hasMessageHeader = true
  fresh : h.fmt = 2 → ∀ s, reg.get h.csid = some s → s.reassemblyBytesRead = 0
  ext : h.extTs = extTsForAvail reg h.fmt h.csid (peekTimestamp p h.fmt h.headerSize)
  length_le : effLenForAvail reg h.fmt h.csid (peekLength p h.fmt h.headerSize) ≤
    reg.maxMsgLength.toNat
  to_read : h.toRead = min (effLenForAvail reg h.fmt h.csid (peekLength p h.fmt h.headerSize) -
    reassemblyReadForAvail reg h.fmt h.csid) (chunkSzForAvail reg h.csid)
  cap : overReassemblyCap reg h.fmt h.csid h.toRead = false
  room : reg.canGetOrCreate h.csid = true
  avail : h.totalHeader + h.toRead ≤ p.length

theorem fmt_le {fmt n : Nat} (h : msgFieldSize fmt = some n) : fmt ≤ 3 := by
  unfold msgFieldSize at h
  split at h <;> first | omega | cases h

variable {p : List UInt8} {reg : ChunkRegistry} {h : ChunkHead}

/-- What a successful check has established. -/
theorem ready_of_peek (hp : peekChunk p reg = .ready h) : Ready p reg h := by
  unfold peekChunk at hp
  split at hp
  · cases hp
  rename_i fmt csid headerSize hb
  split at hp
  · cases hp
  rename_i fieldSize hf
  split at hp
  · cases hp
  have hle := fmt_le hf
  simp only [checkChunk] at hp
  split at hp
  · cases hp
  rename_i hknown
  split at hp
  · cases hp
  rename_i hfresh
  split at hp
  · cases hp
  split at hp
  · cases hp
  rename_i hlen
  split at hp
  · cases hp
  rename_i hcap
  split at hp
  · cases hp
  rename_i hhead
  split at hp
  · cases hp
  rename_i hroom
  split at hp
  · cases hp
  rename_i hav
  cases hp
  constructor
  case basic => exact hb
  case field => exact hf
  case inherit =>
    intro h2
    cases hg : reg.get csid with
    | none => exact absurd ⟨h2, by simp [hg]⟩ hknown
    | some s =>
      refine ⟨s, rfl, ?_⟩
      have hfm : fmt = 2 ∨ fmt = 3 := by
        change 2 ≤ fmt at h2
        omega
      simpa [hg, hfm] using hhead
  case fresh =>
    intro h2 s hs
    change fmt = 2 at h2
    change reg.get csid = some s at hs
    simpa [h2, hs] using hfresh
  case ext => rfl
  case length_le => exact Nat.le_of_not_lt hlen
  case to_read => rfl
  case cap => simpa using hcap
  case room => simpa using hroom
  case avail => exact Nat.le_of_not_lt hav

/-- Phase 1 lets a chunk through exactly when its checks pass. -/
theorem Ready.peek (hr : Ready p reg h) : peekChunk p reg = .ready h := by
  have hlen := hr.avail
  rw [ChunkHead.totalHeader] at hlen
  have hknown : ¬(h.fmt ≥ 2 ∧ (reg.get h.csid).isNone = true) := by
    rintro ⟨h2, hn⟩
    obtain ⟨s, hs, -⟩ := hr.inherit h2
    simp [hs] at hn
  have hfresh : ¬(h.fmt = 2 ∧
      (reg.get h.csid).any (fun s => s.reassemblyBytesRead != 0) = true) := by
    rintro ⟨h2, hn⟩
    obtain ⟨s, hs, -⟩ := hr.inherit (Nat.le_of_eq h2.symm)
    simp [hs, hr.fresh h2 s hs] at hn
  have hhead : ¬((h.fmt = 2 ∨ h.fmt = 3) ∧
      (reg.get h.csid).any (fun s => !s.hasMessageHeader) = true) := by
    rintro ⟨h2, hn⟩
    obtain ⟨s, hs, ht⟩ := hr.inherit (by omega)
    simp [hs, ht] at hn
  rw [peekChunk, hr.basic]
  dsimp only
  rw [hr.field]
  dsimp only
  rw [if_neg (by omega), checkChunk, if_neg hknown, if_neg hfresh]
  dsimp only
  rw [← hr.ext, if_neg (by omega), if_neg (Nat.not_lt_of_le hr.length_le), ← hr.to_read, hr.cap,
    if_neg Bool.false_ne_true, if_neg hhead, hr.room, if_neg (by simp), if_neg (by omega)]

theorem take_drop_take {α : Type} (l : List α) {n k m : Nat} (h : k + m ≤ n) :
    ((l.take n).drop k).take m = (l.drop k).take m := by
  rw [List.drop_take, List.take_take, Nat.min_eq_left (by omega)]

/-- The length in the header is the one phase 1 peeked. -/
theorem Ready.fields_length (hr : Ready p reg h) (hf : h.fmt ≤ 1) :
    (h.fields p).msgLength = peekLength p h.fmt h.headerSize := by
  have hs := hr.field
  rw [ChunkHead.fields, peekLength, if_pos hf, field24]
  rcases Nat.le_one_iff_eq_zero_or_eq_one.mp hf with h0 | h1
  · rw [h0] at hs ⊢
    rw [← Option.some.inj hs]
    simp only [messageFields, field24]
    rw [take_drop_take _ (by omega), List.drop_drop]
  · rw [h1] at hs ⊢
    rw [← Option.some.inj hs]
    simp only [messageFields, field24]
    rw [take_drop_take _ (by omega), List.drop_drop]

section Stamp

variable (s : ChunkStream) (fmt : Nat) (f : MessageFields) (ts : UInt32) (ext : Bool)

@[simp] theorem stamp_csid : (stampHeader s fmt f ts ext).csid = s.csid := by
  unfold stampHeader
  split <;> try rfl
  split <;> rfl

@[simp] theorem stamp_in_use : (stampHeader s fmt f ts ext).inUse = s.inUse := by
  unfold stampHeader
  split <;> try rfl
  split <;> rfl

@[simp] theorem stamp_reassembling :
    (stampHeader s fmt f ts ext).reassembling = s.reassembling := by
  unfold stampHeader
  split <;> try rfl
  split <;> rfl

@[simp] theorem stamp_chunk_size : (stampHeader s fmt f ts ext).chunkSize = s.chunkSize := by
  unfold stampHeader
  split <;> try rfl
  split <;> rfl

@[simp] theorem stamp_bytes_read :
    (stampHeader s fmt f ts ext).reassemblyBytesRead = s.reassemblyBytesRead := by
  unfold stampHeader
  split <;> try rfl
  split <;> rfl

@[simp] theorem stamp_buf : (stampHeader s fmt f ts ext).reassemblyBuf = s.reassemblyBuf := by
  unfold stampHeader
  split <;> try rfl
  split <;> rfl

theorem stamp_length : (stampHeader s fmt f ts ext).type0MsgLength =
    if fmt ≤ 1 then f.msgLength else s.type0MsgLength := by
  unfold stampHeader
  split
  · rfl
  · rfl
  · rfl
  · rename_i h0 h1 _
    have hn : ¬fmt ≤ 1 := by
      intro hle
      rcases Nat.le_one_iff_eq_zero_or_eq_one.mp hle with he | he
      · exact h0 he
      · exact h1 he
    rw [if_neg hn]
    split <;> rfl

theorem stamp_header : (stampHeader s fmt f ts ext).hasMessageHeader =
    if fmt ≤ 1 then true else s.hasMessageHeader := by
  unfold stampHeader
  split
  · rfl
  · rfl
  · rfl
  · rename_i h0 h1 _
    have hn : ¬fmt ≤ 1 := by
      intro hle
      rcases Nat.le_one_iff_eq_zero_or_eq_one.mp hle with he | he
      · exact h0 he
      · exact h1 he
    rw [if_neg hn]
    split <;> rfl

end Stamp

/-- The message bytes still missing are the ones phase 1 counted. -/
theorem Ready.late_missing (hr : Ready p reg h) :
    ((reg.opened h.csid).headed h p).type0MsgLength -
      ((reg.opened h.csid).headed h p).reassemblyBytesRead =
      effLenForAvail reg h.fmt h.csid (peekLength p h.fmt h.headerSize) -
        reassemblyReadForAvail reg h.fmt h.csid := by
  rw [ChunkStream.headed, stamp_bytes_read, stamp_length, effLenForAvail,
    reassemblyReadForAvail]
  simp only [ChunkStream.restarted]
  by_cases hf : h.fmt ≤ 1
  · rw [if_pos hf, if_pos hf, if_pos hf, if_pos hf, hr.fields_length hf]
  · obtain ⟨s, hs, -⟩ := hr.inherit (by omega)
    simp [if_neg hf, ChunkRegistry.opened, hs]

theorem late_chunk_size (reg : ChunkRegistry) (h : ChunkHead) (p : List UInt8) :
    ((reg.opened h.csid).headed h p).chunkSize = chunkSzForAvail reg h.csid := by
  rw [ChunkStream.headed, stamp_chunk_size, chunkSzForAvail]
  cases hg : reg.get h.csid <;> simp [ChunkStream.restarted, ChunkRegistry.opened, hg]

/-- Phase 3 takes as many payload bytes as phase 1 made sure of. -/
theorem Ready.late_to_read (hr : Ready p reg h) :
    min (((reg.opened h.csid).headed h p).type0MsgLength -
      ((reg.opened h.csid).headed h p).reassemblyBytesRead)
      ((reg.opened h.csid).headed h p).chunkSize = h.toRead := by
  rw [hr.late_missing, late_chunk_size, hr.to_read]

/-- Once phase 1 has passed, phases 2 and 3 consume the header and reach the payload. -/
theorem chunk_read_store {reg1 : ChunkRegistry} {idx : Nat} (buf : Buffer) (msg : ChunkMessage)
    (hr : Ready buf.peek reg h) (hland : reg.Landing h.csid reg1 idx) :
    ∃ c, c.peek = buf.peek.drop h.totalHeader ∧
      chunkRead buf reg msg =
        storeChunk ⟨c, (discardPartial reg1 idx h.fmt).modifyStream idx (fun s =>
          stampHeader s h.fmt (h.fields buf.peek) (h.finalTimestamp buf.peek) h.extTs), msg, []⟩
          idx h := by
  have hgo := hland.get_or_create
  have hav := hr.avail
  rw [ChunkHead.totalHeader] at hav
  obtain ⟨b1, hb1, hp1⟩ := (buf.drain h.headerSize).read_ok
    (by rw [Buffer.peek_drain, List.length_drop]; omega : h.msgFieldSize ≤ _)
  rw [Buffer.peek_drain] at hb1 hp1
  rw [List.drop_drop] at hp1
  have haccept : ∀ c ts, acceptChunk ⟨c, reg, msg, []⟩ h (h.fields buf.peek) ts =
      storeChunk ⟨c, (discardPartial reg1 idx h.fmt).modifyStream idx (fun s =>
        stampHeader s h.fmt (h.fields buf.peek) ts h.extTs), msg, []⟩ idx h := by
    intro c ts
    have hlate : ¬((h.fmt = 2 ∨ h.fmt = 3) ∧
        ((discardPartial reg1 idx h.fmt).stream idx).reassemblyBytesRead = 0 ∧
        ((discardPartial reg1 idx h.fmt).stream idx).hasMessageHeader = false) := by
      rintro ⟨hf, -, hh⟩
      obtain ⟨s, hs, ht⟩ := hr.inherit (by omega)
      rw [discardPartial, if_neg (by omega), hland.stream_eq, ChunkRegistry.opened, hs,
        Option.getD_some, ht] at hh
      cases hh
    rw [acceptChunk, hr.cap, if_neg Bool.false_ne_true, hgo]
    exact if_neg hlate
  have hfields : messageFields h.fmt ((buf.peek.drop h.headerSize).take h.msgFieldSize) =
      h.fields buf.peek := rfl
  rw [chunkRead, hr.peek]
  dsimp only
  rw [hb1]
  dsimp only
  rw [hfields]
  cases hx : h.extTs with
  | false =>
    refine ⟨b1, ?_, ?_⟩
    · rw [hp1, ChunkHead.totalHeader, hx]
      rfl
    · rw [if_neg Bool.false_ne_true, haccept, ChunkHead.finalTimestamp, hx]
      rfl
  | true =>
    rw [hx, extTsSize] at hav
    obtain ⟨b2, hb2, hp2⟩ := b1.read_ok (by rw [hp1, List.length_drop]; omega : 4 ≤ _)
    refine ⟨b2, ?_, ?_⟩
    · rw [hp2, hp1, List.drop_drop, ChunkHead.totalHeader, hx]
      rfl
    · rw [if_pos rfl, hb2, hp1]
      dsimp only
      rw [haccept, ChunkHead.finalTimestamp, hx]
      rfl

theorem discard_eq_put {idx : Nat} (fmt : Nat) (hi : idx < reg.streams.length) :
    discardPartial reg idx fmt = reg.put idx ((reg.stream idx).restarted fmt)
      (reg.reassemblyBytesInUse -
        if fmt ≤ 1 then (reg.stream idx).reassemblyBuf.available else 0)
      reg.reassemblingCount := by
  have hc : fmt ≤ 1 ↔ fmt = 0 ∨ fmt = 1 := Nat.le_one_iff_eq_zero_or_eq_one
  unfold discardPartial ChunkStream.restarted
  by_cases hf : fmt ≤ 1
  · simp only [if_pos (hc.mp hf), if_pos hf, ChunkRegistry.releaseStreamReassembly]
    nth_rewrite 1 [← ChunkRegistry.put_self hi]
    rw [ChunkRegistry.put_release, ChunkRegistry.put_modify]
  · simp only [if_neg (mt hc.mpr hf), if_neg hf]
    exact (ChunkRegistry.put_self hi).symm

theorem finish_chunk_put {idx bytes count : Nat} (s : ChunkStream) (c : Buffer)
    (msg : ChunkMessage) (hi : idx < reg.streams.length)
    (hc : s.reassembling.toNat ≤ count) :
    finishChunk ⟨c, reg.put idx s bytes count, msg, []⟩ idx h =
      if s.complete then
        (⟨c, reg.put idx ({ s with chunkReadScratch := [] } : ChunkStream).settled
          (bytes - s.reassemblyBuf.available) (count - s.reassembling.toNat), s.message h,
          s.reassemblyBuf.peek⟩, .ok 1)
      else
        (⟨c, reg.put idx ({ s with chunkReadScratch := [] } : ChunkStream).settled bytes
          (count - s.reassembling.toNat + 1), { msg with isComplete := false }, []⟩, .ok 0) := by
  have hcm : ({ s with chunkReadScratch := [] } : ChunkStream).complete = s.complete := rfl
  unfold finishChunk
  dsimp only
  rw [ChunkRegistry.put_stream _ _ _ hi, ChunkRegistry.put_modify,
    ChunkRegistry.put_flag { s with chunkReadScratch := [] } _ _ _ hi hc,
    ChunkRegistry.put_modify, ChunkRegistry.put_release]
  change (if s.complete = true then _ else _) = _
  rw [ChunkStream.settled, hcm]
  cases hs : s.complete with
  | true =>
    have hge : s.type0MsgLength ≤ s.reassemblyBytesRead := of_decide_eq_true hs
    simp [hge, ChunkStream.message]
  | false =>
    have hlt : ¬s.type0MsgLength ≤ s.reassemblyBytesRead := of_decide_eq_false hs
    simp [hlt]

/-- The payload step on a stream whose buffer has room. -/
theorem store_chunk_put {idx n bytes count : Nat} {s : ChunkStream} {d : List UInt8}
    (c : Buffer) (msg : ChunkMessage) (hi : idx < reg.streams.length)
    (hn : min (s.type0MsgLength - s.reassemblyBytesRead) s.chunkSize = n)
    (hav : n ≤ c.peek.length) (hd : c.peek.take n = d)
    (hw : s.reassemblyBuf.peek.length + n ≤ bufferMaxSize)
    (hc : s.reassembling.toNat ≤ count) (hb : bytes + n ≤ usizeMax) :
    ∃ c', c'.peek = c.peek.drop n ∧
      storeChunk ⟨c, reg.put idx s bytes count, msg, []⟩ idx h =
        if (s.fed d).complete then
          (⟨c', reg.put idx (s.fed d).settled (bytes + n - (s.fed d).reassemblyBuf.available)
            (count - s.reassembling.toNat), (s.fed d).message h, (s.fed d).reassemblyBuf.peek⟩,
            .ok 1)
        else
          (⟨c', reg.put idx (s.fed d).settled (bytes + n) (count - s.reassembling.toNat + 1),
            { msg with isComplete := false }, []⟩, .ok 0) := by
  obtain ⟨c', hc', hp'⟩ := c.read_ok hav
  have hdl : d.length = n := by
    rw [← hd, List.length_take]
    exact Nat.min_eq_left hav
  obtain ⟨w, hw', -⟩ := s.reassemblyBuf.write_ok (by rw [hdl]; exact hw : _ + d.length ≤ _)
  refine ⟨c', hp', ?_⟩
  rw [hd] at hc'
  unfold storeChunk
  dsimp only
  rw [ChunkRegistry.put_stream _ _ _ hi, hn, hc']
  dsimp only
  rw [hw']
  dsimp only
  rw [ChunkRegistry.put_modify, ChunkRegistry.put_modify, ChunkRegistry.put_growth,
    sat_add_eq hb, ← hdl]
  exact finish_chunk_put { s.fed d with chunkReadScratch := d } c' msg hi hc

def discarded (reg : ChunkRegistry) (h : ChunkHead) : Nat :=
  if h.fmt ≤ 1 then (reg.opened h.csid).reassemblyBuf.available else 0

theorem Ready.cap_le (hr : Ready p reg h) : h.toRead = 0 ∨
    reg.reassemblyBytesInUse - discarded reg h + h.toRead ≤ reg.maxReassemblyBytes.toNat := by
  have hc := hr.cap
  have ho : ((reg.get h.csid).map (fun s => s.reassemblyBuf.available)).getD 0 =
      (reg.opened h.csid).reassemblyBuf.available := by
    cases hg : reg.get h.csid <;> simp [ChunkRegistry.opened, hg, Buffer.available_eq]
  simp only [overReassemblyCap, ho, Bool.and_eq_false_iff, decide_eq_false_iff_not,
    Nat.not_lt] at hc
  rcases hc with hz | hle
  · exact .inl (Nat.le_zero.mp hz)
  · exact .inr hle

theorem Ready.room_le (hr : Ready p reg h) (hreg : Accounted reg) :
    reg.reassemblyBytesInUse - discarded reg h + h.toRead ≤ reg.maxReassemblyBytes.toNat := by
  rcases hr.cap_le with hz | hle
  · have hin := hreg.bytes_le
    rw [hz]
    omega
  · exact hle

section Landed

variable {reg1 : ChunkRegistry} {idx : Nat}

theorem headed_counted {s : ChunkStream} (hs : Tracked reg s) (h : ChunkHead) (p : List UInt8) :
    (s.headed h p).reassemblyBytesRead = (s.headed h p).reassemblyBuf.available := by
  rw [ChunkStream.headed, stamp_bytes_read, stamp_buf]
  simp only [ChunkStream.restarted]
  split
  · simp [Buffer.available_eq]
  · exact hs.counted

theorem fields_length_le (h : ChunkHead) (p : List UInt8) :
    (h.fields p).msgLength ≤ rtmpWireMaxMsgLength := by
  have hf : ∀ (bs : List UInt8) (off : Nat), field24 bs off ≤ rtmpWireMaxMsgLength := by
    intro bs off
    have hlt := Bytes.of_be_lt ((bs.drop off).take 3)
    have hle : 256 ^ ((bs.drop off).take 3).length ≤ 256 ^ 3 :=
      Nat.pow_le_pow_right (by omega) (List.length_take_le 3 _)
    rw [field24, rtmpWireMaxMsgLength]
    omega
  rw [ChunkHead.fields]
  unfold messageFields
  split
  · exact hf _ _
  · exact hf _ _
  · exact Nat.zero_le _
  · exact Nat.zero_le _

theorem headed_length_le {s : ChunkStream} (hs : Tracked reg s) (h : ChunkHead)
    (p : List UInt8) : (s.headed h p).type0MsgLength ≤ rtmpWireMaxMsgLength := by
  rw [ChunkStream.headed, stamp_length]
  split
  · exact fields_length_le h p
  · exact hs.length_le

theorem Tracked.read_le {s : ChunkStream} (hs : Tracked reg s) :
    s.reassemblyBytesRead ≤ s.type0MsgLength := by
  by_cases hz : s.reassemblyBytesRead = 0
  · rw [hz]
    exact Nat.zero_le _
  · exact Nat.le_of_lt (hs.unfinished (hs.flag.mp hz)).1

theorem headed_read_le {s : ChunkStream} (hs : Tracked reg s) (h : ChunkHead) (p : List UInt8) :
    (s.headed h p).reassemblyBytesRead ≤ (s.headed h p).type0MsgLength := by
  rw [ChunkStream.headed, stamp_bytes_read, stamp_length]
  simp only [ChunkStream.restarted]
  split
  · exact Nat.zero_le _
  · exact hs.read_le

/-- Payload bytes always fit the reassembly buffer: a length field has 24 bits. -/
theorem Ready.fits (hr : Ready p reg h) (ht : Tracked reg (reg.opened h.csid)) :
    ((reg.opened h.csid).headed h p).reassemblyBuf.peek.length + h.toRead ≤
      rtmpWireMaxMsgLength := by
  have hcount := headed_counted ht h p
  have hle := headed_length_le ht h p
  have hrl := headed_read_le ht h p
  have hn := hr.late_to_read
  rw [Buffer.available_eq] at hcount
  omega

theorem Ready.data_length (hr : Ready p reg h) : (h.data p).length = h.toRead := by
  have hav := hr.avail
  rw [ChunkHead.data, List.length_take, List.length_drop]
  omega

theorem Ready.received_peek (hr : Ready p reg h) (ht : Tracked reg (reg.opened h.csid)) :
    ((reg.opened h.csid).received h p).reassemblyBuf.peek =
      ((reg.opened h.csid).headed h p).reassemblyBuf.peek ++ h.data p := by
  have hf := hr.fits ht
  rw [rtmpWireMaxMsgLength] at hf
  rw [ChunkStream.received, ChunkStream.fed, Buffer.peek_write, hr.data_length]
  exact if_pos (Nat.le_trans hf (by decide))

theorem headed_buffered (reg : ChunkRegistry) (h : ChunkHead) (p : List UInt8) :
    ((reg.opened h.csid).headed h p).reassemblyBuf.peek.length + discarded reg h =
      (reg.opened h.csid).reassemblyBuf.available := by
  rw [ChunkStream.headed, stamp_buf]
  simp only [ChunkStream.restarted, discarded]
  split
  · simp
  · exact (Buffer.available_eq _).symm

theorem headed_flag (h : ChunkHead) (p : List UInt8) :
    (s.headed h p).reassembling = s.reassembling := by
  rw [ChunkStream.headed, stamp_reassembling]
  rfl

/-- The registry when the payload is about to be stored. -/
theorem landed_header (hl : reg.Landing h.csid reg1 idx) (p : List UInt8) :
    (discardPartial reg1 idx h.fmt).modifyStream idx (fun s =>
      stampHeader s h.fmt (h.fields p) (h.finalTimestamp p) h.extTs) =
      reg1.put idx ((reg.opened h.csid).headed h p)
        (reg.reassemblyBytesInUse - discarded reg h) reg.reassemblingCount := by
  obtain ⟨hbytes, hcount, -⟩ := hl.counters
  rw [discard_eq_put _ hl.lt, ChunkRegistry.put_modify, hl.stream_eq, hbytes, hcount]
  rfl

theorem settled_buffered :
    s.settled.reassemblyBuf.available = if s.complete then 0 else s.reassemblyBuf.available := by
  unfold ChunkStream.settled
  split
  · simp [Buffer.available_eq]
  · rfl

theorem settled_flag : s.settled.reassembling = !s.complete := by
  unfold ChunkStream.settled
  cases hc : s.complete <;> rfl

theorem settled_csid : s.settled.csid = s.csid := by
  unfold ChunkStream.settled
  split <;> rfl

/-- The counters the payload step leaves are the ones `place` computes. -/
theorem place_received (hreg : Accounted reg) (hr : Ready p reg h)
    (hl : reg.Landing h.csid reg1 idx) :
    reg1.place idx ((reg.opened h.csid).received h p).settled =
      reg1.put idx ((reg.opened h.csid).received h p).settled
        (reg.reassemblyBytesInUse - discarded reg h + h.toRead -
          if ((reg.opened h.csid).received h p).complete then
            ((reg.opened h.csid).received h p).reassemblyBuf.available else 0)
        (reg.reassemblingCount - (reg.opened h.csid).reassembling.toNat +
          (!((reg.opened h.csid).received h p).complete).toNat) := by
  obtain ⟨hbytes, hcount, -⟩ := hl.counters
  have hlen := congrArg List.length (hr.received_peek (hreg.opened_tracked h.csid))
  rw [List.length_append, hr.data_length, ← Buffer.available_eq] at hlen
  have hbuf := headed_buffered reg h p
  have hle := hreg.opened_le h.csid
  rw [ChunkRegistry.place, settled_buffered, settled_flag, hl.stream_eq, hbytes, hcount]
  congr 1
  split <;> omega

/-- A chunk that phase 1 lets through replaces its own stream and nothing else. -/
theorem chunk_read_received (hreg : Accounted reg) (buf : Buffer) (msg : ChunkMessage)
    (hr : Ready buf.peek reg h) :
    ∃ reg1 idx c, reg.Landing h.csid reg1 idx ∧
      c.peek = buf.peek.drop (h.totalHeader + h.toRead) ∧
      chunkRead buf reg msg =
        if ((reg.opened h.csid).received h buf.peek).complete then
          (⟨c, reg1.place idx ((reg.opened h.csid).received h buf.peek).settled,
            ((reg.opened h.csid).received h buf.peek).message h,
            ((reg.opened h.csid).received h buf.peek).reassemblyBuf.peek⟩, .ok 1)
        else
          (⟨c, reg1.place idx ((reg.opened h.csid).received h buf.peek).settled,
            { msg with isComplete := false }, []⟩, .ok 0) := by
  obtain ⟨reg1, idx, hland⟩ := ChunkRegistry.landing_of_room hr.room
  obtain ⟨c, hcp, hread⟩ := chunk_read_store buf msg hr hland
  have hfits := hr.fits (hreg.opened_tracked h.csid)
  have hroom := hr.room_le hreg
  have hu : reg.maxReassemblyBytes.toNat ≤ usizeMax := by
    have := reg.maxReassemblyBytes.toNat_lt
    rw [usizeMax]
    omega
  have hav : h.toRead ≤ c.peek.length := by
    have := hr.avail
    rw [hcp, List.length_drop]
    omega
  have hflag : ((reg.opened h.csid).headed h buf.peek).reassembling.toNat ≤
      reg.reassemblingCount := by
    rw [headed_flag]
    exact hreg.opened_flag_le h.csid
  obtain ⟨c', hc', hstore⟩ := store_chunk_put (h := h) (d := h.data buf.peek) c msg hland.lt
    hr.late_to_read hav (by rw [hcp]; rfl) (Nat.le_trans hfits (by decide)) hflag
    (Nat.le_trans hroom hu)
  refine ⟨reg1, idx, c', hland, by rw [hc', hcp, List.drop_drop], ?_⟩
  rw [hread, landed_header hland, hstore, place_received hreg hr hland, headed_flag]
  change (if ((reg.opened h.csid).received h buf.peek).complete = true then _ else _) = _
  cases hcm : ((reg.opened h.csid).received h buf.peek).complete <;> rfl

end Landed

end Proofs

end LibRtmp
