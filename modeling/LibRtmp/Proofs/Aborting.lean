import LibRtmp.Proofs.Accounting

namespace LibRtmp

variable (s : ChunkStream)

def ChunkStream.forget (s : ChunkStream) : ChunkStream := { s with lastPayload := [] }

namespace ChunkRegistry

/-- The registry without the payloads that were already handed over. -/
def forget (reg : ChunkRegistry) : ChunkRegistry :=
  { reg with
    streams := reg.streams.map ChunkStream.forget
    indexed := by simpa using reg.indexed }

variable {reg : ChunkRegistry} {idx csid : Nat}

@[simp] theorem stream_forget : reg.forget.stream idx = (reg.stream idx).forget := by
  simp only [stream, forget, List.getD_eq_getElem?_getD, List.getElem?_map]
  cases reg.streams[idx]? <;> rfl

@[simp] theorem slot_forget : reg.forget.slot? csid = reg.slot? csid := by
  unfold slot?
  simp only [stream_forget]
  rfl

@[simp] theorem get_forget : reg.forget.get csid = (reg.get csid).map ChunkStream.forget := by
  unfold get
  rw [slot_forget, Option.map_map]
  congr 1
  funext idx
  exact stream_forget

@[simp] theorem length_forget : reg.forget.streams.length = reg.streams.length :=
  List.length_map _

theorem can_get_forget : reg.forget.canGetOrCreate csid = reg.canGetOrCreate csid := by
  unfold canGetOrCreate
  rw [slot_forget]
  cases reg.slot? csid with
  | none =>
    rw [length_forget]
    rfl
  | some idx =>
    dsimp only
    rw [stream_forget]
    rfl

theorem place_forget :
    (reg.place idx s).forget = reg.forget.place idx s.forget := by
  apply ChunkRegistry.ext <;> try rfl
  · exact List.map_set
  · change _ = reg.reassemblyBytesInUse - (reg.forget.stream idx).reassemblyBuf.available + _
    rw [stream_forget]
    rfl
  · change _ = reg.reassemblingCount - (reg.forget.stream idx).reassembling.toNat + _
    rw [stream_forget]
    rfl

theorem opened_forget : (reg.opened csid).forget = reg.forget.opened csid := by
  unfold opened
  rw [get_forget]
  cases reg.get csid <;> rfl

theorem push_forget :
    (reg.pushStream csid s).forget = reg.forget.pushStream csid s.forget := by
  apply ChunkRegistry.ext <;> try rfl
  · simp [forget, pushStream]
  · funext c
    change _ = if c = csid then some reg.forget.streams.length else _
    rw [length_forget]
    rfl

/-- Registries that differ in handed-over payloads give a chunk the same slot. -/
theorem landing_forget {reg' reg1 reg1' : ChunkRegistry} {idx' : Nat}
    (hf : reg.forget = reg'.forget) (hl : reg.Landing csid reg1 idx)
    (hl' : reg'.Landing csid reg1' idx') : idx = idx' ∧ reg1.forget = reg1'.forget := by
  have hslot : reg.slot? csid = reg'.slot? csid := by
    rw [← slot_forget, hf, slot_forget]
  have hlen : reg.streams.length = reg'.streams.length := by
    rw [← length_forget, hf, length_forget]
  cases hl with
  | found hs _ =>
    cases hl' with
    | found hs' _ => exact ⟨Option.some.inj (hs.symm.trans (hslot.trans hs')), hf⟩
    | pushed hs' _ _ => cases hs.symm.trans (hslot.trans hs')
  | pushed hs _ _ =>
    cases hl' with
    | found hs' _ => cases hs.symm.trans (hslot.trans hs')
    | pushed _ _ _ =>
      refine ⟨hlen, ?_⟩
      rw [push_forget, push_forget, opened_forget, opened_forget, hf]

end ChunkRegistry

namespace Proofs

section Forgetting

variable {reg : ChunkRegistry} {h : ChunkHead} {p : List UInt8}

/-- What is asked of a stream that does not depend on its last payload. -/
theorem get_forget_map {α : Type} (csid : Nat) (f : ChunkStream → α)
    (hf : ∀ s, f s.forget = f s) : (reg.forget.get csid).map f = (reg.get csid).map f := by
  rw [ChunkRegistry.get_forget, Option.map_map]
  congr 1
  funext s
  exact hf s

theorem get_forget_any (csid : Nat) (f : ChunkStream → Bool) (hf : ∀ s, f s.forget = f s) :
    (reg.forget.get csid).any f = (reg.get csid).any f := by
  rw [ChunkRegistry.get_forget]
  cases reg.get csid with
  | none => rfl
  | some s => exact hf s

theorem over_cap_forget (fmt csid toRead : Nat) :
    overReassemblyCap reg.forget fmt csid toRead = overReassemblyCap reg fmt csid toRead := by
  unfold overReassemblyCap
  rw [get_forget_map csid (fun s => s.reassemblyBuf.available) fun _ => rfl]
  rfl

/-- Payloads handed over do not count in the checks. -/
theorem peek_chunk_forget : peekChunk p reg.forget = peekChunk p reg := by
  have hcheck : ∀ fmt csid headerSize fieldSize tsRaw lenRaw available,
      checkChunk reg.forget fmt csid headerSize fieldSize tsRaw lenRaw available =
        checkChunk reg fmt csid headerSize fieldSize tsRaw lenRaw available := by
    intro fmt csid headerSize fieldSize tsRaw lenRaw available
    have hnone : (reg.forget.get csid).isNone = (reg.get csid).isNone := by
      rw [ChunkRegistry.get_forget, Option.isNone_map]
    unfold checkChunk extTsForAvail effLenForAvail chunkSzForAvail reassemblyReadForAvail
    dsimp only
    rw [hnone, get_forget_any csid (fun s => s.reassemblyBytesRead != 0) fun _ => rfl,
      get_forget_any csid (fun s => s.type0ExtTs) fun _ => rfl,
      get_forget_map csid (fun s => s.type0MsgLength) fun _ => rfl,
      get_forget_map csid (fun s => s.chunkSize) fun _ => rfl,
      get_forget_map csid (fun s => s.reassemblyBytesRead) fun _ => rfl,
      get_forget_any csid (fun s => !s.hasMessageHeader) fun _ => rfl,
      ChunkRegistry.can_get_forget]
    simp only [over_cap_forget]
    rfl
  unfold peekChunk
  split
  · rfl
  · split
    · rfl
    · split
      · rfl
      · exact hcheck _ _ _ _ _ _ _

theorem stamp_forget (fmt : Nat) (f : MessageFields) (ts : UInt32) (ext : Bool) :
    (stampHeader s fmt f ts ext).forget = stampHeader s.forget fmt f ts ext := by
  unfold stampHeader
  split
  · rfl
  · rfl
  · rfl
  · by_cases hstarts : s.reassemblyBytesRead = 0
    · rw [if_pos hstarts, if_pos (show s.forget.reassemblyBytesRead = 0 from hstarts)]
      rfl
    · rw [if_neg hstarts, if_neg (show ¬ s.forget.reassemblyBytesRead = 0 from hstarts)]

theorem received_forget :
    (s.received h p).forget = s.forget.received h p :=
  congrArg (ChunkStream.fed · (h.data p)) (stamp_forget (s.restarted h.fmt) h.fmt (h.fields p)
    (h.finalTimestamp p) h.extTs)

theorem settled_forget {s t : ChunkStream} (hf : s.forget = t.forget) :
    s.complete = t.complete ∧ s.message h = t.message h ∧ s.reassemblyBuf = t.reassemblyBuf ∧
      s.settled.forget = t.settled.forget := by
  have hcomplete : s.complete = t.complete :=
    (congrArg ChunkStream.complete hf :)
  refine ⟨hcomplete, (congrArg (ChunkStream.message · h) hf :),
    (congrArg ChunkStream.reassemblyBuf hf :), ?_⟩
  unfold ChunkStream.settled
  rw [hcomplete]
  split
  · exact congrArg (fun s : ChunkStream => { s with
      reassembling := false
      reassemblyBuf := s.reassemblyBuf.take.1
      reassemblyBytesRead := 0 }) hf
  · exact congrArg (fun s : ChunkStream => { s with reassembling := true }) hf

end Forgetting

section Reading

inductive ReaderOp where
  | write (bytes : List UInt8)
  | read

/-- What shows of a call: its result, what it leaves to read, and the counters of the registry. -/
structure ReaderReply where
  result : Except ErrorCode Nat
  msg : ChunkMessage
  payload : List UInt8
  unread : List UInt8
  bytesInUse : Nat
  reassembling : Nat
  streams : Nat

def readerReply (st : ReadState) (result : Except ErrorCode Nat) : ReaderReply where
  result := result
  msg := st.msg
  payload := st.payload
  unread := st.buf.peek
  bytesInUse := st.reg.reassemblyBytesInUse
  reassembling := st.reg.reassemblingCount
  streams := st.reg.streams.length

def readerStep (st : ReadState) : ReaderOp → ReadState × ReaderReply
  | .write bytes =>
    ({ st with buf := (st.buf.write bytes).1 },
      readerReply { st with buf := (st.buf.write bytes).1 } (st.buf.write bytes).2)
  | .read =>
    ((chunkRead st.buf st.reg st.msg).1,
      readerReply (chunkRead st.buf st.reg st.msg).1 (chunkRead st.buf st.reg st.msg).2)

structure SameReader (st st' : ReadState) : Prop where
  unread : st.buf.peek = st'.buf.peek
  reg : st.reg.forget = st'.reg.forget
  msg : st.msg = st'.msg
  payload : st.payload = st'.payload
  accounted : Accounted st.reg
  accounted' : Accounted st'.reg

variable {st st' : ReadState}

theorem SameReader.reply (h : SameReader st st') {result result' : Except ErrorCode Nat}
    (hr : result = result') : readerReply st result = readerReply st' result' := by
  unfold readerReply
  rw [hr, h.unread, h.msg, h.payload,
    show st.reg.reassemblyBytesInUse = st'.reg.reassemblyBytesInUse from
      (congrArg ChunkRegistry.reassemblyBytesInUse h.reg :),
    show st.reg.reassemblingCount = st'.reg.reassemblingCount from
      (congrArg ChunkRegistry.reassemblingCount h.reg :),
    ← @ChunkRegistry.length_forget st.reg, h.reg, ChunkRegistry.length_forget]

theorem SameReader.write (h : SameReader st st') (bytes : List UInt8) :
    SameReader { st with buf := (st.buf.write bytes).1 }
        { st' with buf := (st'.buf.write bytes).1 } ∧
      (st.buf.write bytes).2 = (st'.buf.write bytes).2 := by
  refine ⟨⟨?_, h.reg, h.msg, h.payload, h.accounted, h.accounted'⟩, ?_⟩
  · rw [Buffer.peek_write, Buffer.peek_write, h.unread]
  · rw [Buffer.write_result, Buffer.write_result, h.unread]

/-- The two readers answer alike and stay alike. -/
theorem SameReader.read (h : SameReader st st') :
    SameReader (chunkRead st.buf st.reg st.msg).1 (chunkRead st'.buf st'.reg st'.msg).1 ∧
      (chunkRead st.buf st.reg st.msg).2 = (chunkRead st'.buf st'.reg st'.msg).2 := by
  have hacc := h.accounted.chunk_read st.buf st.msg
  have hacc' := h.accounted'.chunk_read st'.buf st'.msg
  have hpeek : peekChunk st.buf.peek st.reg = peekChunk st'.buf.peek st'.reg := by
    rw [← peek_chunk_forget, h.reg, peek_chunk_forget, h.unread]
  cases hp : peekChunk st.buf.peek st.reg with
  | more =>
    unfold chunkRead at hacc hacc' ⊢
    rw [← hpeek, hp] at hacc'
    rw [hp] at hacc
    rw [← hpeek, hp]
    exact ⟨⟨h.unread, h.reg, h.msg, rfl, hacc, hacc'⟩, rfl⟩
  | fail e =>
    unfold chunkRead at hacc hacc' ⊢
    rw [← hpeek, hp] at hacc'
    rw [hp] at hacc
    rw [← hpeek, hp]
    exact ⟨⟨h.unread, h.reg, h.msg, rfl, hacc, hacc'⟩, rfl⟩
  | ready head =>
    have hready := ready_of_peek hp
    have hready' := ready_of_peek (hpeek.symm.trans hp)
    obtain ⟨reg1, idx, c, hland, hc, hread⟩ :=
      chunk_read_received h.accounted st.buf st.msg hready
    obtain ⟨reg1', idx', c', hland', hc', hread'⟩ :=
      chunk_read_received h.accounted' st'.buf st'.msg hready'
    obtain ⟨rfl, hreg1⟩ := ChunkRegistry.landing_forget h.reg hland hland'
    have hreceived : ((st.reg.opened head.csid).received head st.buf.peek).forget =
        ((st'.reg.opened head.csid).received head st'.buf.peek).forget := by
      rw [received_forget, received_forget, ChunkRegistry.opened_forget,
        ChunkRegistry.opened_forget, h.reg, h.unread]
    obtain ⟨hcomplete, hmessage, hbuf, hsettled⟩ := @settled_forget head _ _ hreceived
    have hplaced : (reg1.place idx
        ((st.reg.opened head.csid).received head st.buf.peek).settled).forget =
        (reg1'.place idx
          ((st'.reg.opened head.csid).received head st'.buf.peek).settled).forget := by
      rw [ChunkRegistry.place_forget, ChunkRegistry.place_forget, hreg1, hsettled]
    have hunread : c.peek = c'.peek := by rw [hc, hc', h.unread]
    rw [hread] at hacc ⊢
    rw [hread'] at hacc' ⊢
    rw [hcomplete] at hacc ⊢
    split at hacc <;> rename_i hdone
    · rw [if_pos hdone] at hacc' ⊢
      rw [if_pos hdone]
      exact ⟨⟨hunread, hplaced, hmessage, congrArg Buffer.peek hbuf, hacc, hacc'⟩, rfl⟩
    · rw [if_neg hdone] at hacc' ⊢
      rw [if_neg hdone]
      refine ⟨⟨hunread, hplaced, ?_, rfl, hacc, hacc'⟩, rfl⟩
      exact congrArg (fun m : ChunkMessage => { m with isComplete := false }) h.msg

theorem SameReader.step (h : SameReader st st') (op : ReaderOp) :
    SameReader (readerStep st op).1 (readerStep st' op).1 ∧
      (readerStep st op).2 = (readerStep st' op).2 := by
  cases op with
  | write bytes =>
    obtain ⟨hsame, hresult⟩ := h.write bytes
    exact ⟨hsame, hsame.reply hresult⟩
  | read =>
    obtain ⟨hsame, hresult⟩ := h.read
    exact ⟨hsame, hsame.reply hresult⟩

theorem SameReader.replies (h : SameReader st st') (ops : List ReaderOp) :
    (Runs.total readerStep st ops).2 = (Runs.total readerStep st' ops).2 := by
  induction ops generalizing st st' with
  | nil => rfl
  | cons op ops ih =>
    obtain ⟨hsame, hreply⟩ := h.step op
    exact congrArg₂ List.cons hreply (ih hsame)

end Reading

section Completing

variable {reg reg' : ChunkRegistry} {x idx : Nat} {s : ChunkStream} {h : ChunkHead}
  {buf : Buffer} {msg : ChunkMessage}

/-- The rest of the message in flight arrives, chunk by chunk, with whatever payload. -/
inductive Completes (x : Nat) : ChunkRegistry → ChunkRegistry → Prop where
  | last {reg : ChunkRegistry} {h : ChunkHead} (buf : Buffer) (msg : ChunkMessage)
    (hp : peekChunk buf.peek reg = .ready h) (hx : h.csid = x) (hf : h.fmt = 3)
    (hr : (chunkRead buf reg msg).2 = .ok 1) : Completes x reg (chunkRead buf reg msg).1.reg
  | next {reg reg' : ChunkRegistry} {h : ChunkHead} (buf : Buffer) (msg : ChunkMessage)
    (hp : peekChunk buf.peek reg = .ready h) (hx : h.csid = x) (hf : h.fmt = 3)
    (hr : (chunkRead buf reg msg).2 = .ok 0)
    (rest : Completes x (chunkRead buf reg msg).1.reg reg') : Completes x reg reg'

def aborted (s : ChunkStream) : ChunkStream :=
  { s with
    reassembling := false
    reassemblyBuf := s.reassemblyBuf.take.1
    reassemblyBytesRead := 0
    chunkReadScratch := [] }

/-- A buffer whose bytes were taken is like any other. -/
theorem take_same (b b' : Buffer) : b.take.1 = b'.take.1 := by
  unfold Buffer.take RawBuffer.take
  simp [b.valid.owned, b'.valid.owned]

theorem fed_aborted (s : ChunkStream) (d : List UInt8) : aborted (s.fed d) = aborted s := by
  unfold aborted ChunkStream.fed
  simp only [take_same _ s.reassemblyBuf]

theorem abort_place (hacc : Accounted reg) (hs : reg.slot? x = some idx) :
    reg.abortStream x = reg.place idx (aborted (reg.stream idx)) := by
  have hi := ChunkRegistry.slot_lt hs
  unfold ChunkRegistry.abortStream
  rw [hs]
  refine (ChunkRegistry.release_eq_place hi ?_ ?_ (hacc.flag_le hi)).trans rfl
  · simp [Buffer.available_eq]
  · exact fun _ hr => hr

theorem place_stream (hi : idx < reg.streams.length) : (reg.place idx s).stream idx = s :=
  ChunkRegistry.put_stream s _ _ hi

theorem place_again (hi : idx < reg.streams.length) (t : ChunkStream) :
    (reg.place idx s).place idx t = reg.place idx t := by
  have hstream : (reg.place idx s).stream idx = s := place_stream hi
  apply ChunkRegistry.ext <;> try rfl
  · exact List.set_set ..
  · change (reg.place idx s).reassemblyBytesInUse - ((reg.place idx s).stream
      idx).reassemblyBuf.available + _ = _
    rw [hstream]
    change _ - _ + s.reassemblyBuf.available - s.reassemblyBuf.available + _ = _
    rw [Nat.add_sub_cancel]
    rfl
  · change (reg.place idx s).reassemblingCount - ((reg.place idx s).stream
      idx).reassembling.toNat + _ = _
    rw [hstream]
    change _ - _ + s.reassembling.toNat - s.reassembling.toNat + _ = _
    rw [Nat.add_sub_cancel]
    rfl

/-- A chunk that continues a message adds its payload and nothing else. -/
theorem received_continues (hf : h.fmt = 3) (hs : s.reassemblyBytesRead ≠ 0) (p : List UInt8) :
    s.received h p = s.fed (h.data p) := by
  unfold ChunkStream.received ChunkStream.headed ChunkStream.restarted
  rw [hf]
  exact congrArg (ChunkStream.fed · (h.data p)) (if_neg hs)

theorem continuing_read (hacc : Accounted reg) (hs : reg.slot? x = some idx)
    (hpart : (reg.stream idx).reassemblyBytesRead ≠ 0) (hp : peekChunk buf.peek reg = .ready h)
    (hx : h.csid = x) (hf : h.fmt = 3) :
    (chunkRead buf reg msg).1.reg =
        reg.place idx ((reg.stream idx).fed (h.data buf.peek)).settled ∧
      (chunkRead buf reg msg).2 =
        .ok (if ((reg.stream idx).fed (h.data buf.peek)).complete then 1 else 0) := by
  subst hx
  obtain ⟨reg1, idx', c, hland, -, hread⟩ :=
    chunk_read_received hacc buf msg (ready_of_peek hp)
  cases hland with
  | found hs' _ =>
    cases hs.symm.trans hs'
    rw [ChunkRegistry.opened_of_slot hs, received_continues hf hpart] at hread
    rw [hread]
    split <;> exact ⟨rfl, rfl⟩
  | pushed hs' _ _ => cases hs.symm.trans hs'

theorem slot_place (hs : reg.slot? x = some idx) {t : ChunkStream}
    (hc : t.csid = (reg.stream idx).csid) (hu : t.inUse = (reg.stream idx).inUse) :
    (reg.place idx t).slot? x = some idx := by
  have hstream : (reg.place idx t).stream idx = t := place_stream (ChunkRegistry.slot_lt hs)
  have hindex : (reg.place idx t).csidIndex x = reg.csidIndex x := rfl
  unfold ChunkRegistry.slot? at hs ⊢
  rw [hindex]
  cases hi : reg.csidIndex x with
  | none => rw [hi] at hs; cases hs
  | some i =>
    rw [hi] at hs
    dsimp only at hs ⊢
    split at hs
    · rename_i hused
      cases hs
      rw [hstream, hc, hu, if_pos hused]
    · cases hs

/-- Whether the rest of the message arrives or is given up, the registry goes on the same. -/
theorem delivered_forget (hd : Completes x reg reg') (hacc : Accounted reg)
    (hs : reg.slot? x = some idx) (hpart : (reg.stream idx).reassemblyBytesRead ≠ 0) :
    reg'.forget = (reg.abortStream x).forget ∧ Accounted reg' := by
  induction hd with
  | @last reg h buf msg hp hx hf hr =>
    refine ⟨?_, hacc.chunk_read buf msg⟩
    obtain ⟨hreg, hresult⟩ := @continuing_read reg x idx h buf msg hacc hs hpart hp hx hf
    have hcomplete : ((reg.stream idx).fed (h.data buf.peek)).complete = true := by
      rw [hr] at hresult
      by_contra hc
      rw [if_neg hc] at hresult
      cases hresult
    rw [hreg, abort_place hacc hs, ChunkRegistry.place_forget, ChunkRegistry.place_forget]
    congr 1
    unfold ChunkStream.settled
    rw [if_pos hcomplete, ← fed_aborted _ (h.data buf.peek)]
    rfl
  | @next reg reg' h buf msg hp hx hf hr rest ih =>
    obtain ⟨hreg, hresult⟩ := @continuing_read reg x idx h buf msg hacc hs hpart hp hx hf
    have hcomplete : ((reg.stream idx).fed (h.data buf.peek)).complete = false := by
      rw [hr] at hresult
      by_contra hc
      rw [if_pos (by simpa using hc)] at hresult
      cases hresult
    have hi := ChunkRegistry.slot_lt hs
    have hacc' := hacc.chunk_read buf msg
    have hsettled : ((reg.stream idx).fed (h.data buf.peek)).settled =
        { (reg.stream idx).fed (h.data buf.peek) with reassembling := true } := by
      unfold ChunkStream.settled
      rw [if_neg (by simp [hcomplete])]
    rw [hreg, hsettled] at ih hacc'
    have hslot := @slot_place reg x idx hs
      { (reg.stream idx).fed (h.data buf.peek) with reassembling := true } rfl rfl
    obtain ⟨hforget, haccounted⟩ := ih hacc' hslot (by
      rw [place_stream hi]
      exact fun hz => hpart (Nat.eq_zero_of_add_eq_zero_right hz))
    refine ⟨hforget.trans ?_, haccounted⟩
    rw [abort_place hacc' hslot, abort_place hacc hs, place_stream hi, place_again hi,
      ← fed_aborted (reg.stream idx) (h.data buf.peek)]
    rfl

def headerContext (s : ChunkStream) : Bool × UInt32 × Nat × UInt8 × UInt32 × Bool × UInt32 :=
  (s.hasMessageHeader, s.type0Timestamp, s.type0MsgLength, s.type0MsgTypeId, s.type0MsgStreamId,
    s.type0ExtTs, s.lastDelta)

/-- After an abort the reader goes on as if the rest of the message had arrived, whatever it is
then given to read, and the headers of the stream stay as the aborted message left them. -/
theorem abort_keeps_context (msgLength : UInt32) (activeCsids reassembly : UInt64)
    (calls : List RegistryCall) (x : Nat) (s : ChunkStream) (reg' : ChunkRegistry)
    (hs : (reached msgLength activeCsids reassembly calls).get x = some s)
    (hpart : s.reassembling = true)
    (hd : Completes x (reached msgLength activeCsids reassembly calls) reg')
    (buf : Buffer) (msg : ChunkMessage) (payload : List UInt8) (ops : List ReaderOp) :
    let aborted := (reached msgLength activeCsids reassembly calls).abortStream x
    (Runs.total readerStep ⟨buf, aborted, msg, payload⟩ ops).2 =
        (Runs.total readerStep ⟨buf, reg', msg, payload⟩ ops).2 ∧
      aborted.reassemblyBytesInUse = reg'.reassemblyBytesInUse ∧
      aborted.reassemblingCount = reg'.reassemblingCount ∧
      aborted.streams.length = reg'.streams.length ∧
      (aborted.get x).map headerContext = some (headerContext s) ∧
      (reg'.get x).map headerContext = some (headerContext s) := by
  have hacc := (reached_accounted msgLength activeCsids reassembly calls).1
  generalize reached msgLength activeCsids reassembly calls = reg at *
  obtain ⟨idx, hslot, rfl⟩ := Option.map_eq_some_iff.mp hs
  have htracked := hacc.slot_tracked hslot
  obtain ⟨hforget, hacc'⟩ := delivered_forget hd hacc hslot (htracked.flag.mpr hpart)
  have hsame : SameReader ⟨buf, reg.abortStream x, msg, payload⟩ ⟨buf, reg', msg, payload⟩ :=
    ⟨rfl, hforget.symm, rfl, rfl, hacc.abort x, hacc'⟩
  have hreply := hsame.reply (rfl : (.ok 0 : Except ErrorCode Nat) = .ok 0)
  have hcontext : ((reg.abortStream x).get x).map headerContext =
      some (headerContext (reg.stream idx)) := by
    have hplaced := @slot_place reg x idx hslot (aborted (reg.stream idx)) rfl rfl
    rw [abort_place hacc hslot, ChunkRegistry.get_of_slot hplaced,
      place_stream (ChunkRegistry.slot_lt hslot)]
    rfl
  refine ⟨hsame.replies ops, congrArg ReaderReply.bytesInUse hreply,
    congrArg ReaderReply.reassembling hreply, congrArg ReaderReply.streams hreply, hcontext, ?_⟩
  rw [← get_forget_map x headerContext fun _ => rfl, hforget,
    get_forget_map x headerContext fun _ => rfl, hcontext]

/-- A video message of 130 bytes on chunk stream 4, of which one chunk has arrived. -/
def partlyRead : List RegistryCall :=
  [.chunkRead (.fromSlice ([4, 0, 0, 9, 0, 0, 130, 9, 1, 0, 0, 0] ++ List.replicate 128 7)
    (by rw [List.length_append, List.length_replicate]; decide)) {}]

def lastChunk : Buffer := .fromSlice [0xC4, 8, 8] (by decide)

def waiting : ChunkRegistry :=
  reached defaultMaxMsgLength 256 maxReassemblyBytesPerConn partlyRead

theorem last_chunk_completes : Completes 4 waiting (chunkRead lastChunk waiting {}).1.reg := by
  have hfront : (match peekChunk lastChunk.peek waiting with
      | .ready h => decide (h.csid = 4 ∧ h.fmt = 3)
      | _ => false) = true := by decide +kernel
  cases hp : peekChunk lastChunk.peek waiting with
  | more =>
    rw [hp] at hfront
    cases hfront
  | fail e =>
    rw [hp] at hfront
    cases hfront
  | ready h =>
    rw [hp] at hfront
    obtain ⟨hx, hf⟩ := of_decide_eq_true hfront
    exact .last lastChunk {} hp hx hf (by decide +kernel)

/-- Given up or delivered, a header that repeats that of the message is read the same. -/
theorem waiting_keeps_context :
    (Runs.total readerStep ⟨.new, waiting.abortStream 4, {}, []⟩
        [.write (0xC4 :: List.replicate 128 5), .read, .write [0xC4, 6, 6], .read]).2 =
      (Runs.total readerStep ⟨.new, (chunkRead lastChunk waiting {}).1.reg, {}, []⟩
        [.write (0xC4 :: List.replicate 128 5), .read, .write [0xC4, 6, 6], .read]).2 :=
  (abort_keeps_context defaultMaxMsgLength 256 maxReassemblyBytesPerConn partlyRead 4
    (waiting.stream 0) _ (ChunkRegistry.get_of_slot (by decide +kernel)) (by decide +kernel)
    last_chunk_completes .new {} [] _).1

end Completing

end Proofs

end LibRtmp
