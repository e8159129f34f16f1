import LibRtmp.Lib.Runs
import LibRtmp.Proofs.ReadChunk

namespace LibRtmp.Proofs

variable {p : List UInt8} {reg reg1 : ChunkRegistry} {h : ChunkHead} {idx : Nat}

/-- A chunk leaves its stream finished and empty, or with a proper part of a message. -/
theorem received_tracked (hreg : Accounted reg) (hr : Ready p reg h) :
    Tracked reg ((reg.opened h.csid).received h p).settled := by
  have ht := hreg.opened_tracked h.csid
  have hn := hr.late_to_read
  have hd := hr.data_length
  have hcount := headed_counted ht h p
  have hlen := congrArg List.length (hr.received_peek ht)
  rw [List.length_append, hd, ← Buffer.available_eq, ← Buffer.available_eq, ← hcount] at hlen
  have hsize : ((reg.opened h.csid).headed h p).chunkSize = reg.defaultSize := by
    rw [ChunkStream.headed, stamp_chunk_size]
    exact ht.size
  have hused : ((reg.opened h.csid).headed h p).inUse = true := by
    rw [ChunkStream.headed, stamp_in_use]
    exact ht.used
  have hhead : ((reg.opened h.csid).headed h p).hasMessageHeader = true := by
    rw [ChunkStream.headed, stamp_header]
    split
    · rfl
    · obtain ⟨s, hs, hsh⟩ := hr.inherit (by omega)
      simp [ChunkStream.restarted, ChunkRegistry.opened, hs, hsh]
  have hmin := hreg.size_ge
  have hread : ((reg.opened h.csid).received h p).reassemblyBytesRead =
      ((reg.opened h.csid).headed h p).reassemblyBytesRead + h.toRead := by
    rw [ChunkStream.received, ChunkStream.fed, hd]
  unfold ChunkStream.settled
  split
  · constructor
    case size => exact hsize
    case used => exact hused
    case length_le => exact headed_length_le ht h p
    all_goals simp [Buffer.available_eq]
  · rename_i hc
    have hlt : ((reg.opened h.csid).received h p).reassemblyBytesRead <
        ((reg.opened h.csid).headed h p).type0MsgLength :=
      Nat.lt_of_not_le (fun hle => hc (decide_eq_true hle))
    constructor
    case counted => exact hread.trans hlen.symm
    case flag =>
      refine ⟨fun _ => rfl, fun _ => ?_⟩
      rw [hsize] at hn
      rw [hread] at hlt ⊢
      rw [defaultChunkSize] at hmin
      omega
    case unfinished => exact fun _ => ⟨hlt, hhead⟩
    case size => exact hsize
    case used => exact hused
    case length_le => exact headed_length_le ht h p

theorem received_csid (s : ChunkStream) (h : ChunkHead) (p : List UInt8) :
    (s.received h p).settled.csid = s.csid := by
  rw [settled_csid, ChunkStream.received]
  exact stamp_csid _ _ _ _ _

theorem Accounted.received (hreg : Accounted reg) (hr : Ready p reg h)
    (hl : reg.Landing h.csid reg1 idx) :
    Accounted (reg1.place idx ((reg.opened h.csid).received h p).settled) := by
  obtain ⟨hbytes, hcount, hsize, -, hmax, hcap⟩ := hl.counters
  have hst := hl.stream_eq
  obtain ⟨h1, h2, h3, h4, h5, h6⟩ := received_tracked hreg hr
  apply (hreg.landed hl).place hl.lt ⟨h1, h2, h3, h4.trans hsize.symm, h5, h6⟩
  · rw [received_csid, hst]
  · have hlen := congrArg List.length (hr.received_peek (hreg.opened_tracked h.csid))
    rw [List.length_append, hr.data_length, ← Buffer.available_eq] at hlen
    have hbuf := headed_buffered reg h p
    have hle := hreg.opened_le h.csid
    have hroom := hr.room_le hreg
    have hin := hreg.bytes_le
    rw [settled_buffered, hst, hbytes, hcap]
    split <;> omega
  · intro _
    rw [hst, hcount, hmax]
    exact hl.room

/-- The registry keeps its books whatever bytes `chunk_read` meets. -/
theorem Accounted.chunk_read (hreg : Accounted reg) (buf : Buffer) (msg : ChunkMessage) :
    Accounted (chunkRead buf reg msg).1.reg := by
  cases hp : peekChunk buf.peek reg with
  | more =>
    rw [chunkRead, hp]
    exact hreg
  | fail e =>
    rw [chunkRead, hp]
    exact hreg
  | ready h =>
    have hr := ready_of_peek hp
    obtain ⟨reg1, idx, c, hl, -, hread⟩ := chunk_read_received hreg buf msg hr
    rw [hread]
    split <;> exact hreg.received hr hl

def limits (reg : ChunkRegistry) : UInt32 × UInt64 × UInt64 :=
  (reg.maxMsgLength, reg.maxActiveCsids, reg.maxReassemblyBytes)

theorem set_stream_reassembling_limits (reg : ChunkRegistry) (idx : Nat) (r : Bool) :
    limits (reg.setStreamReassembling idx r) = limits reg := by
  unfold ChunkRegistry.setStreamReassembling
  split <;> rfl

theorem chunk_read_limits (hreg : Accounted reg) (buf : Buffer) (msg : ChunkMessage) :
    limits (chunkRead buf reg msg).1.reg = limits reg := by
  cases hp : peekChunk buf.peek reg with
  | more => rw [chunkRead, hp]
  | fail e => rw [chunkRead, hp]
  | ready h =>
    obtain ⟨reg1, idx, c, hl, -, hread⟩ := chunk_read_received hreg buf msg (ready_of_peek hp)
    obtain ⟨-, -, -, hm, ha, hb⟩ := hl.counters
    have hlim : limits reg1 = limits reg := by rw [limits, limits, hm, ha, hb]
    rw [hread]
    split <;> exact hlim

inductive RegistryCall where
  | chunkRead (buf : Buffer) (msg : ChunkMessage)
  | abortStream (csid : Nat)
  | resetStream (csid : Nat)
  | setAllChunkSize (chunkSize : Nat)

def callRegistry (reg : ChunkRegistry) : RegistryCall → ChunkRegistry
  | .chunkRead buf msg => (LibRtmp.chunkRead buf reg msg).1.reg
  | .abortStream csid => reg.abortStream csid
  | .resetStream csid => reg.resetStream csid
  | .setAllChunkSize n => reg.setAllChunkSize n

theorem call_accounted (hreg : Accounted reg) (c : RegistryCall) :
    Accounted (callRegistry reg c) := by
  cases c with
  | chunkRead buf msg => exact hreg.chunk_read buf msg
  | abortStream csid => exact hreg.abort csid
  | resetStream csid => exact hreg.reset csid
  | setAllChunkSize n => exact hreg.set_chunk_size n

theorem call_limits (hreg : Accounted reg) (c : RegistryCall) :
    limits (callRegistry reg c) = limits reg := by
  cases c with
  | chunkRead buf msg => exact chunk_read_limits hreg buf msg
  | abortStream csid =>
    simp only [callRegistry, ChunkRegistry.abortStream]
    split
    · rfl
    · exact set_stream_reassembling_limits _ _ _
  | resetStream csid =>
    simp only [callRegistry, ChunkRegistry.resetStream]
    split
    · rfl
    · exact set_stream_reassembling_limits _ _ _
  | setAllChunkSize n =>
    simp only [callRegistry, ChunkRegistry.setAllChunkSize]
    split <;> rfl

def reached (msgLength : UInt32) (activeCsids reassembly : UInt64) (calls : List RegistryCall) :
    ChunkRegistry :=
  Runs.exec callRegistry (ChunkRegistry.new.withLimits msgLength activeCsids reassembly) calls

theorem reached_accounted (msgLength : UInt32) (activeCsids reassembly : UInt64)
    (calls : List RegistryCall) :
    Accounted (reached msgLength activeCsids reassembly calls) ∧
      limits (reached msgLength activeCsids reassembly calls) =
        (msgLength, activeCsids, reassembly) := by
  apply @Runs.exec_invariant _ _ _
    (fun r => Accounted r ∧ limits r = (msgLength, activeCsids, reassembly))
  · rintro r c ⟨hr, hl⟩
    exact ⟨call_accounted hr c, (call_limits hr c).trans hl⟩
  · exact ⟨new_accounted msgLength activeCsids reassembly, rfl⟩

/-- In every reachable registry the cached counters are exact and within the limits the
registry was created with, and each stream's own bookkeeping agrees. -/
theorem registry_accounting_exact (msgLength : UInt32) (activeCsids reassembly : UInt64)
    (calls : List RegistryCall) :
    let reg := reached msgLength activeCsids reassembly calls
    reg.reassemblyBytesInUse = (reg.streams.map (fun s => s.reassemblyBuf.available)).sum ∧
      reg.reassemblyBytesInUse ≤ reassembly.toNat ∧
      reg.reassemblingCount = reg.streams.countP (fun s => s.reassembling) ∧
      reg.reassemblingCount ≤ activeCsids.toNat ∧
      (∀ s ∈ reg.streams,
        s.reassemblyBytesRead = s.reassemblyBuf.available ∧
        (s.reassemblyBytesRead ≠ 0 ↔ s.reassembling = true) ∧
        (s.reassembling = true →
          s.reassemblyBytesRead < s.type0MsgLength ∧ s.hasMessageHeader = true) ∧
        s.chunkSize = reg.defaultSize) ∧
      (∀ csid idx, reg.csidIndex csid = some idx ↔
        ∃ s, reg.streams[idx]? = some s ∧ s.csid = csid) ∧
      reg.streams.length ≤ maxChunkStreams := by
  intro reg
  obtain ⟨hacc, hlim⟩ := reached_accounted msgLength activeCsids reassembly calls
  simp only [limits, Prod.mk.injEq] at hlim
  obtain ⟨-, hactive, hbytes⟩ := hlim
  refine ⟨hacc.bytes, hbytes ▸ hacc.bytes_le, hacc.count, hactive ▸ hacc.count_le, ?_,
    hacc.index, hacc.table⟩
  intro s hs
  obtain ⟨h1, h2, h3, h4, -, -⟩ := hacc.tracked s hs
  exact ⟨h1, h2, h3, h4⟩

structure FrontChunk (p : List UInt8) (reg : ChunkRegistry) where
  fmt : Nat
  csid : Nat
  basicSize : Nat
  headerSize : Nat
  basic : readBasicHeader p = some (fmt, csid, basicSize)
  header : msgFieldSize fmt = some headerSize

namespace FrontChunk

variable (c : FrontChunk p reg)

def missing : Nat :=
  effLenForAvail reg c.fmt c.csid (peekLength p c.fmt c.basicSize) -
    reassemblyReadForAvail reg c.fmt c.csid

def extended : Bool := extTsForAvail reg c.fmt c.csid (peekTimestamp p c.fmt c.basicSize)

def size : Nat :=
  c.basicSize + c.headerSize + extTsSize c.extended + min (chunkSzForAvail reg c.csid) c.missing

def finishes : Prop := c.missing ≤ chunkSzForAvail reg c.csid

instance : Decidable c.finishes := inferInstanceAs (Decidable (_ ≤ _))

end FrontChunk

def Ready.front (hr : Ready p reg h) : FrontChunk p reg :=
  ⟨h.fmt, h.csid, h.headerSize, h.msgFieldSize, hr.basic, hr.field⟩

theorem Ready.front_size (hr : Ready p reg h) : hr.front.size = h.totalHeader + h.toRead := by
  rw [hr.to_read, Nat.min_comm, ChunkHead.totalHeader, hr.ext]
  rfl

/-- The completion check of phase 3 asks what phase 1 could already tell. -/
theorem Ready.complete_iff (hreg : Accounted reg) (hr : Ready p reg h) :
    ((reg.opened h.csid).received h p).complete = true ↔ hr.front.finishes := by
  have hread := headed_read_le (hreg.opened_tracked h.csid) h p
  have hmiss : _ = hr.front.missing := hr.late_missing
  have hsize : _ = chunkSzForAvail reg hr.front.csid := late_chunk_size reg h p
  have hn := hr.late_to_read
  rw [FrontChunk.finishes, ← hmiss, ← hsize, ChunkStream.complete, decide_eq_true_iff,
    ChunkStream.received, ChunkStream.fed, hr.data_length]
  dsimp only
  omega

/-- One call of `chunk_read` on a reachable registry fails and changes nothing, asks for more
bytes and changes nothing, or takes exactly the one chunk at the front of the unread bytes. -/
theorem chunk_read_atomic (msgLength : UInt32) (activeCsids reassembly : UInt64)
    (calls : List RegistryCall) (buf : Buffer) (msg : ChunkMessage) :
    let reg := reached msgLength activeCsids reassembly calls
    let r := chunkRead buf reg msg
    (∃ e, r.2 = .error e ∧ r.1.buf.peek = buf.peek ∧ r.1.reg = reg) ∨
      (r.2 = .ok 0 ∧ r.1.buf.peek = buf.peek ∧ r.1.reg = reg) ∨
      ∃ c : FrontChunk buf.peek reg, c.size ≤ buf.peek.length ∧
        r.1.buf.peek = buf.peek.drop c.size ∧ r.2 = .ok (if c.finishes then 1 else 0) := by
  intro reg r
  have hreg := (reached_accounted msgLength activeCsids reassembly calls).1
  cases hp : peekChunk buf.peek reg with
  | more =>
    have hm : r = (⟨buf, reg, msg, []⟩, .ok 0) := by
      change chunkRead buf reg msg = _
      rw [chunkRead, hp]
    exact .inr (.inl ⟨hm ▸ rfl, hm ▸ rfl, hm ▸ rfl⟩)
  | fail e =>
    have hm : r = (⟨buf, reg, msg, []⟩, .error e) := by
      change chunkRead buf reg msg = _
      rw [chunkRead, hp]
    exact .inl ⟨e, hm ▸ rfl, hm ▸ rfl, hm ▸ rfl⟩
  | ready h =>
    have hr := ready_of_peek hp
    obtain ⟨reg1, idx, c, -, hc, hread⟩ := chunk_read_received hreg buf msg hr
    rw [← hr.front_size] at hc
    refine .inr (.inr ⟨hr.front, hr.front_size ▸ hr.avail, ?_⟩)
    change (chunkRead buf reg msg).1.buf.peek = _ ∧ (chunkRead buf reg msg).2 = _
    rw [hread]
    by_cases hf : hr.front.finishes
    · rw [if_pos ((hr.complete_iff hreg).mpr hf), if_pos hf]
      exact ⟨hc, rfl⟩
    · rw [if_neg (mt (hr.complete_iff hreg).mp hf), if_neg hf]
      exact ⟨hc, rfl⟩

end LibRtmp.Proofs
