import LibRtmp.Lib.Table
import LibRtmp.Chunk.State

namespace LibRtmp

variable {csid : Nat} {reg1 : ChunkRegistry}

namespace ChunkRegistry

variable {reg : ChunkRegistry} {idx : Nat}

theorem stream_mem (h : idx < reg.streams.length) : reg.stream idx ∈ reg.streams := by
  rw [stream, List.getD_eq_getElem?_getD, List.getElem?_eq_getElem h]
  exact List.getElem_mem h

theorem stream_get? (h : idx < reg.streams.length) :
    reg.streams[idx]? = some (reg.stream idx) := by
  rw [stream, List.getD_eq_getElem?_getD, List.getElem?_eq_getElem h]
  rfl

theorem slot_lt (h : reg.slot? csid = some idx) : idx < reg.streams.length := by
  unfold slot? at h
  split at h
  · cases h
  · rename_i i hi
    split at h
    · cases h
      exact reg.indexed _ _ hi
    · cases h

def opened (reg : ChunkRegistry) (csid : Nat) : ChunkStream :=
  (reg.get csid).getD { csid := csid, inUse := true, chunkSize := reg.defaultSize }

inductive Landing (reg : ChunkRegistry) (csid : Nat) : ChunkRegistry → Nat → Prop where
  | found {idx : Nat} (hs : reg.slot? csid = some idx)
      (room : (reg.stream idx).reassembling = true ∨
        reg.reassemblingCount < reg.maxActiveCsids.toNat) : Landing reg csid reg idx
  | pushed (hs : reg.slot? csid = none) (ht : reg.streams.length < maxChunkStreams)
      (room : reg.reassemblingCount < reg.maxActiveCsids.toNat) :
      Landing reg csid (reg.pushStream csid (reg.opened csid)) reg.streams.length

theorem get_of_slot (h : reg.slot? csid = some idx) :
    reg.get csid = some (reg.stream idx) := by
  rw [get, h]
  rfl

theorem opened_of_slot (h : reg.slot? csid = some idx) :
    reg.opened csid = reg.stream idx := by
  rw [opened, get_of_slot h]
  rfl

theorem opened_fresh (h : reg.slot? csid = none) :
    reg.opened csid = { csid := csid, inUse := true, chunkSize := reg.defaultSize } := by
  rw [opened, get, h]
  rfl

/-- Where the check says there is room, there is a slot to land on. -/
theorem landing_of_room (h : reg.canGetOrCreate csid = true) :
    ∃ reg1 idx, Landing reg csid reg1 idx := by
  unfold canGetOrCreate at h
  cases hs : reg.slot? csid with
  | some i =>
    simp only [hs, Bool.or_eq_true, decide_eq_true_eq] at h
    exact ⟨reg, i, .found hs h⟩
  | none =>
    simp only [hs] at h
    split at h
    · cases h
    · rename_i ha
      exact ⟨_, _, .pushed hs (of_decide_eq_true h) (Nat.lt_of_not_le ha)⟩

theorem Landing.get_or_create
    (h : Landing reg csid reg1 idx) : reg.getOrCreateIndex csid = (reg1, .ok idx) := by
  cases h with
  | found hs room =>
    rw [getOrCreateIndex, hs]
    apply if_neg
    rcases room with hr | hl
    · simp [hr]
    · simp only [Bool.and_eq_true, decide_eq_true_eq, not_and, Nat.not_le]
      intro _
      exact hl
  | pushed hs ht room =>
    rw [getOrCreateIndex, hs]
    simp only [activeReassembling, if_neg (Nat.not_le_of_lt room), if_neg (Nat.not_le_of_lt ht),
      opened_fresh hs]

theorem Landing.lt (h : Landing reg csid reg1 idx) :
    idx < reg1.streams.length := by
  cases h with
  | found hs _ => exact slot_lt hs
  | pushed _ _ _ => simp [pushStream]

theorem Landing.stream_eq (h : Landing reg csid reg1 idx) :
    reg1.stream idx = reg.opened csid := by
  cases h with
  | found hs _ => exact (opened_of_slot hs).symm
  | pushed _ _ _ => simp [stream, pushStream, List.getD_eq_getElem?_getD]

theorem Landing.counters (h : Landing reg csid reg1 idx) :
    reg1.reassemblyBytesInUse = reg.reassemblyBytesInUse ∧
      reg1.reassemblingCount = reg.reassemblingCount ∧ reg1.defaultSize = reg.defaultSize ∧
      reg1.maxMsgLength = reg.maxMsgLength ∧ reg1.maxActiveCsids = reg.maxActiveCsids ∧
      reg1.maxReassemblyBytes = reg.maxReassemblyBytes := by
  cases h with
  | found _ _ => exact ⟨rfl, rfl, rfl, rfl, rfl, rfl⟩
  | pushed _ _ _ => exact ⟨rfl, rfl, rfl, rfl, rfl, rfl⟩

theorem Landing.room (h : Landing reg csid reg1 idx) :
    (reg.opened csid).reassembling = true ∨
      reg.reassemblingCount < reg.maxActiveCsids.toNat := by
  cases h with
  | found hs room =>
    rw [opened_of_slot hs]
    exact room
  | pushed _ _ room => exact .inr room

def put (reg : ChunkRegistry) (idx : Nat) (s : ChunkStream) (bytes count : Nat) : ChunkRegistry :=
  { reg with
    streams := reg.streams.set idx s
    reassemblyBytesInUse := bytes
    reassemblingCount := count
    indexed := by simpa using reg.indexed }

section Put

variable (s : ChunkStream) (bytes count : Nat)

@[simp] theorem put_stream (h : idx < reg.streams.length) :
    (reg.put idx s bytes count).stream idx = s := by
  simp [stream, put, List.getD_eq_getElem?_getD, h]

@[simp] theorem put_modify (f : ChunkStream → ChunkStream) :
    (reg.put idx s bytes count).modifyStream idx f = reg.put idx (f s) bytes count := by
  apply ChunkRegistry.ext <;> try rfl
  exact Table.modify_set f _ _ _

@[simp] theorem put_release (n : Nat) :
    (reg.put idx s bytes count).releaseReassemblyBytes n = reg.put idx s (bytes - n) count := rfl

@[simp] theorem put_growth (n : Nat) :
    (reg.put idx s bytes count).noteReassemblyGrowth n =
      reg.put idx s (satAdd bytes n) count := rfl

/-- Setting the flag moves the count by the change, once the count has seen the old flag. -/
theorem put_flag (r : Bool) (h : idx < reg.streams.length) (hc : s.reassembling.toNat ≤ count) :
    (reg.put idx s bytes count).setStreamReassembling idx r =
      reg.put idx { s with reassembling := r } bytes
        (count - s.reassembling.toNat + r.toNat) := by
  unfold setStreamReassembling
  rw [put_stream s bytes count h, put_modify]
  split
  · rename_i he
    subst he
    rw [Nat.sub_add_cancel hc]
  · apply ChunkRegistry.ext <;> try rfl
    cases r <;> cases hf : s.reassembling <;> simp_all [put]

end Put

theorem put_self (h : idx < reg.streams.length) :
    reg.put idx (reg.stream idx) reg.reassemblyBytesInUse reg.reassemblingCount = reg := by
  apply ChunkRegistry.ext <;> try rfl
  have hs := stream_get? h
  rw [List.getElem?_eq_getElem h] at hs
  change reg.streams.set idx (reg.stream idx) = reg.streams
  rw [← Option.some.inj hs, List.set_getElem_self]

def place (reg : ChunkRegistry) (idx : Nat) (s : ChunkStream) : ChunkRegistry :=
  reg.put idx s
    (reg.reassemblyBytesInUse - (reg.stream idx).reassemblyBuf.available +
      s.reassemblyBuf.available)
    (reg.reassemblingCount - (reg.stream idx).reassembling.toNat + s.reassembling.toNat)

/-- A stream that drops its partial message leaves both totals. -/
theorem release_eq_place {f : ChunkStream → ChunkStream} (h : idx < reg.streams.length)
    (hb : ∀ s, (f s).reassemblyBuf.available = 0)
    (hf : ∀ s, s.reassembling = false → (f s).reassembling = false)
    (hc : (reg.stream idx).reassembling.toNat ≤ reg.reassemblingCount) :
    ((reg.releaseStreamReassembly idx).setStreamReassembling idx false).modifyStream idx f =
      reg.place idx (f { reg.stream idx with reassembling := false }) := by
  have hz := hf { reg.stream idx with reassembling := false } rfl
  rw [releaseStreamReassembly, place, hb, hz]
  nth_rewrite 1 [← put_self h]
  rw [put_release, put_flag _ _ _ _ h hc, put_modify]
  rfl

end ChunkRegistry

namespace Proofs

/-- One stream's bookkeeping: what is buffered, what was counted and the flag agree. -/
structure Tracked (reg : ChunkRegistry) (s : ChunkStream) : Prop where
  counted : s.reassemblyBytesRead = s.reassemblyBuf.available
  flag : s.reassemblyBytesRead ≠ 0 ↔ s.reassembling = true
  unfinished : s.reassembling = true →
    s.reassemblyBytesRead < s.type0MsgLength ∧ s.hasMessageHeader = true
  size : s.chunkSize = reg.defaultSize
  used : s.inUse = true
  length_le : s.type0MsgLength ≤ rtmpWireMaxMsgLength

structure Accounted (reg : ChunkRegistry) : Prop where
  bytes : reg.reassemblyBytesInUse =
    (reg.streams.map (fun s => s.reassemblyBuf.available)).sum
  bytes_le : reg.reassemblyBytesInUse ≤ reg.maxReassemblyBytes.toNat
  count : reg.reassemblingCount = reg.streams.countP (fun s => s.reassembling)
  count_le : reg.reassemblingCount ≤ reg.maxActiveCsids.toNat
  tracked : ∀ s ∈ reg.streams, Tracked reg s
  index : ∀ csid idx, reg.csidIndex csid = some idx ↔
    ∃ s, reg.streams[idx]? = some s ∧ s.csid = csid
  table : reg.streams.length ≤ maxChunkStreams
  size_ge : defaultChunkSize ≤ reg.defaultSize
  size_le : reg.defaultSize ≤ maxPeerChunkSize

variable {reg : ChunkRegistry} {idx csid : Nat} {s : ChunkStream}

theorem new_accounted (msgLength : UInt32) (activeCsids reassembly : UInt64) :
    Accounted (ChunkRegistry.new.withLimits msgLength activeCsids reassembly) where
  bytes := rfl
  bytes_le := Nat.zero_le _
  count := rfl
  count_le := Nat.zero_le _
  tracked := by
    intro s hs
    cases hs
  index := by simp [ChunkRegistry.new, ChunkRegistry.withLimits]
  table := Nat.zero_le _
  size_ge := Nat.le_refl _
  size_le := by
    simp [ChunkRegistry.new, ChunkRegistry.withLimits, defaultChunkSize, maxPeerChunkSize]

theorem Accounted.stream_tracked (h : Accounted reg) (hi : idx < reg.streams.length) :
    Tracked reg (reg.stream idx) :=
  h.tracked _ (ChunkRegistry.stream_mem hi)

theorem Accounted.buffered_le (h : Accounted reg) (hi : idx < reg.streams.length) :
    (reg.stream idx).reassemblyBuf.available ≤ reg.reassemblyBytesInUse := by
  rw [h.bytes]
  exact List.le_sum_of_mem (List.mem_map_of_mem (ChunkRegistry.stream_mem hi))

theorem Accounted.flag_le (h : Accounted reg) (hi : idx < reg.streams.length) :
    (reg.stream idx).reassembling.toNat ≤ reg.reassemblingCount := by
  rw [h.count, Table.count_eq_sum]
  exact List.le_sum_of_mem
    (List.mem_map.mpr ⟨_, ChunkRegistry.stream_mem hi, rfl⟩)

/-- A registered csid leads to the one slot that carries it. -/
theorem Accounted.slot_eq (h : Accounted reg) (csid : Nat) :
    reg.slot? csid = reg.csidIndex csid := by
  unfold ChunkRegistry.slot?
  split
  · rename_i hn
    exact hn.symm
  · rename_i idx hi
    obtain ⟨s, hs, hc⟩ := (h.index csid idx).mp hi
    have hst : reg.stream idx = s := by simp [ChunkRegistry.stream, List.getD_eq_getElem?_getD, hs]
    have hu := (h.tracked s (List.mem_of_getElem? hs)).used
    rw [hst, hu, hc, hi]
    simp

theorem Accounted.slot_tracked (h : Accounted reg) (hs : reg.slot? csid = some idx) :
    Tracked reg (reg.stream idx) := h.stream_tracked (ChunkRegistry.slot_lt hs)

/-- The stream a chunk goes to keeps its books, fresh or not. -/
theorem Accounted.opened_tracked (h : Accounted reg) (csid : Nat) :
    Tracked reg (reg.opened csid) := by
  cases hs : reg.slot? csid with
  | some idx =>
    rw [ChunkRegistry.opened_of_slot hs]
    exact h.slot_tracked hs
  | none =>
    rw [ChunkRegistry.opened_fresh hs]
    constructor <;> simp [Buffer.available_eq]

theorem Accounted.opened_le (h : Accounted reg) (csid : Nat) :
    (reg.opened csid).reassemblyBuf.available ≤ reg.reassemblyBytesInUse := by
  cases hs : reg.slot? csid with
  | some idx =>
    rw [ChunkRegistry.opened_of_slot hs]
    exact h.buffered_le (ChunkRegistry.slot_lt hs)
  | none =>
    rw [ChunkRegistry.opened_fresh hs]
    simp [Buffer.available_eq]

theorem Accounted.opened_flag_le (h : Accounted reg) (csid : Nat) :
    (reg.opened csid).reassembling.toNat ≤ reg.reassemblingCount := by
  cases hs : reg.slot? csid with
  | some idx =>
    rw [ChunkRegistry.opened_of_slot hs]
    exact h.flag_le (ChunkRegistry.slot_lt hs)
  | none =>
    rw [ChunkRegistry.opened_fresh hs]
    exact Nat.zero_le _

/-- Replacing a stream by one that keeps its own books keeps the registry's. -/
theorem Accounted.place (h : Accounted reg) (hi : idx < reg.streams.length) (hs : Tracked reg s)
    (hc : s.csid = (reg.stream idx).csid)
    (hb : reg.reassemblyBytesInUse - (reg.stream idx).reassemblyBuf.available +
      s.reassemblyBuf.available ≤ reg.maxReassemblyBytes.toNat)
    (hr : s.reassembling = true →
      (reg.stream idx).reassembling = true ∨ reg.reassemblingCount < reg.maxActiveCsids.toNat) :
    Accounted (reg.place idx s) := by
  have hget := ChunkRegistry.stream_get? hi
  have hle := h.buffered_le hi
  have hfl := h.flag_le hi
  constructor
  case bytes =>
    have hsum := Table.sum_map_set (fun s => s.reassemblyBuf.available) _ s hget
    have hin := h.bytes
    simp only [ChunkRegistry.place, ChunkRegistry.put]
    omega
  case bytes_le => exact hb
  case count =>
    have hcnt := Table.count_set (fun s => s.reassembling) _ s hget
    have hin := h.count
    simp only [ChunkRegistry.place, ChunkRegistry.put]
    omega
  case count_le =>
    have hin := h.count_le
    simp only [ChunkRegistry.place, ChunkRegistry.put]
    cases hf : s.reassembling with
    | false =>
      rw [Bool.toNat_false]
      omega
    | true =>
      rw [Bool.toNat_true]
      rcases hr hf with ho | hlt
      · rw [ho, Bool.toNat_true] at hfl ⊢
        omega
      · omega
  case tracked =>
    intro t ht
    rcases List.mem_or_eq_of_mem_set ht with hm | rfl
    · obtain ⟨h1, h2, h3, h4, h5, h6⟩ := h.tracked t hm
      exact ⟨h1, h2, h3, h4, h5, h6⟩
    · exact ⟨hs.counted, hs.flag, hs.unfinished, hs.size, hs.used, hs.length_le⟩
  case index =>
    intro csid i
    have hidx := h.index csid i
    simp only [ChunkRegistry.place, ChunkRegistry.put, List.getElem?_set]
    rw [hidx]
    by_cases hii : idx = i
    · subst hii
      rw [hget]
      simp [hi, hc]
    · simp [hii]
  case table => simpa [ChunkRegistry.place, ChunkRegistry.put] using h.table
  case size_ge => exact h.size_ge
  case size_le => exact h.size_le

theorem Accounted.get_eq (h : Accounted reg) (hi : reg.csidIndex csid = some idx) :
    reg.get csid = some (reg.stream idx) := by
  rw [ChunkRegistry.get, h.slot_eq, hi]
  rfl

/-- A csid with no stream gets a fresh one at the end of the table. -/
theorem Accounted.push (h : Accounted reg) (hn : reg.csidIndex csid = none)
    (ht : reg.streams.length < maxChunkStreams) :
    Accounted (reg.pushStream csid
      { csid := csid, inUse := true, chunkSize := reg.defaultSize }) where
  bytes := by
    simp [ChunkRegistry.pushStream, h.bytes, Buffer.available_eq]
  bytes_le := h.bytes_le
  count := by
    simp [ChunkRegistry.pushStream, h.count]
  count_le := h.count_le
  tracked := by
    intro t ht
    rcases List.mem_append.mp ht with hm | he
    · obtain ⟨h1, h2, h3, h4, h5, h6⟩ := h.tracked t hm
      exact ⟨h1, h2, h3, h4, h5, h6⟩
    · simp only [List.mem_cons, List.not_mem_nil, or_false] at he
      subst he
      constructor <;> simp [Buffer.available_eq, ChunkRegistry.pushStream]
  index := by
    intro c i
    have hi := h.index c i
    simp only [ChunkRegistry.pushStream, List.getElem?_append, List.getElem?_singleton]
    by_cases hl : i < reg.streams.length
    · rw [if_pos hl, ← hi]
      split
      · rename_i hc
        subst hc
        rw [hn]
        constructor
        · intro he
          cases he
          exact absurd hl (Nat.lt_irrefl _)
        · intro he
          cases he
      · exact Iff.rfl
    · have hnone : reg.csidIndex c ≠ some i := fun he => hl (reg.indexed c i he)
      rw [if_neg hl]
      split
      · rename_i hc
        subst hc
        constructor
        · intro he
          cases he
          exact ⟨_, if_pos (Nat.sub_self _), rfl⟩
        · rintro ⟨s, hs, -⟩
          split at hs
          · rename_i h0
            congr
            omega
          · cases hs
      · rename_i hc
        constructor
        · intro he
          exact absurd he hnone
        · rintro ⟨s, hs, he⟩
          split at hs
          · cases hs
            exact absurd he.symm hc
          · cases hs
  table := by
    simp only [ChunkRegistry.pushStream, List.length_append, List.length_singleton]
    omega
  size_ge := h.size_ge
  size_le := h.size_le

/-- The registry a chunk lands in keeps its books; only the table may have grown. -/
theorem Accounted.landed (h : Accounted reg)
    (hl : reg.Landing csid reg1 idx) : Accounted reg1 := by
  cases hl with
  | found _ _ => exact h
  | pushed hs ht _ =>
    rw [ChunkRegistry.opened_fresh hs]
    rw [h.slot_eq] at hs
    exact h.push hs ht

/-- A stream may go back to having no partial message. -/
theorem Accounted.release (h : Accounted reg) {f : ChunkStream → ChunkStream}
    (hi : idx < reg.streams.length) (hb : ∀ s, (f s).reassemblyBuf.available = 0)
    (hf : ∀ s, s.reassembling = false → (f s).reassembling = false)
    (ht : Tracked reg (f { reg.stream idx with reassembling := false }))
    (hc : ∀ s, (f s).csid = s.csid) :
    Accounted (((reg.releaseStreamReassembly idx).setStreamReassembling idx false).modifyStream
      idx f) := by
  rw [ChunkRegistry.release_eq_place hi hb hf (h.flag_le hi)]
  apply h.place hi ht (hc _)
  · have hle := h.bytes_le
    rw [hb]
    omega
  · intro hr
    rw [hf _ rfl] at hr
    cases hr

theorem Accounted.abort (h : Accounted reg) (csid : Nat) : Accounted (reg.abortStream csid) := by
  unfold ChunkRegistry.abortStream
  split
  · exact h
  · rename_i idx hs
    have hi := ChunkRegistry.slot_lt hs
    have ht := h.stream_tracked hi
    apply h.release hi
    · simp [Buffer.available_eq]
    · intro s hr
      exact hr
    · constructor
      case size => exact ht.size
      case used => exact ht.used
      case length_le => exact ht.length_le
      all_goals simp [Buffer.available_eq]
    · intro s
      rfl

theorem Accounted.reset (h : Accounted reg) (csid : Nat) : Accounted (reg.resetStream csid) := by
  unfold ChunkRegistry.resetStream
  split
  · exact h
  · rename_i idx hs
    have hi := ChunkRegistry.slot_lt hs
    have ht := h.stream_tracked hi
    apply h.release hi
    · simp [Buffer.available_eq, ChunkStream.reset]
    · intro s hr
      rfl
    · constructor
      case used => exact ht.used
      all_goals simp [Buffer.available_eq, ChunkStream.reset]
    · intro s
      rfl

/-- A new chunk size leaves the accounts alone. -/
theorem Accounted.set_chunk_size (h : Accounted reg) (n : Nat) :
    Accounted (reg.setAllChunkSize n) := by
  unfold ChunkRegistry.setAllChunkSize
  split
  · exact h
  · rename_i hn
    rw [not_or, Nat.not_lt, Nat.not_lt] at hn
    constructor
    case bytes =>
      rw [h.bytes, List.map_map]
      congr 1
      apply List.map_congr_left
      intro s _
      simp only [Function.comp_apply]
      split <;> rfl
    case bytes_le => exact h.bytes_le
    case count =>
      rw [h.count, List.countP_map]
      apply List.countP_congr
      intro s _
      simp only [Function.comp_apply]
      split <;> exact Iff.rfl
    case count_le => exact h.count_le
    case tracked =>
      intro t ht
      obtain ⟨s, hs, rfl⟩ := List.mem_map.mp ht
      obtain ⟨h1, h2, h3, -, h5, h6⟩ := h.tracked s hs
      rw [if_pos h5]
      exact ⟨h1, h2, h3, rfl, h5, h6⟩
    case index =>
      intro c i
      rw [h.index c i, List.getElem?_map]
      constructor
      · rintro ⟨s, hs, hc⟩
        refine ⟨_, by rw [hs]; rfl, ?_⟩
        dsimp only
        split <;> exact hc
      · rintro ⟨t, ht, hc⟩
        obtain ⟨s, hs, rfl⟩ := Option.map_eq_some_iff.mp ht
        refine ⟨s, hs, ?_⟩
        split at hc <;> exact hc
    case table => simpa using h.table
    case size_ge => exact hn.1
    case size_le => exact hn.2

theorem set_chunk_size_get {v : Nat} (hv : defaultChunkSize ≤ v ∧ v ≤ maxPeerChunkSize)
    (h : Accounted reg) (csid : Nat) :
    (reg.setAllChunkSize v).get csid =
      (reg.get csid).map (fun s => { s with chunkSize := v }) := by
  have h' := h.set_chunk_size v
  have hset : reg.setAllChunkSize v = { reg with
      defaultSize := v
      streams := reg.streams.map (fun s => if s.inUse then { s with chunkSize := v } else s)
      indexed := by simpa using reg.indexed } := by
    rw [ChunkRegistry.setAllChunkSize, if_neg (by omega)]
  have hidx : (reg.setAllChunkSize v).csidIndex csid = reg.csidIndex csid := by rw [hset]
  cases hi : reg.csidIndex csid with
  | none =>
    rw [ChunkRegistry.get, ChunkRegistry.get, h.slot_eq, h'.slot_eq, hidx, hi]
    rfl
  | some idx =>
    have hlt := reg.indexed csid idx hi
    have hused := (h.stream_tracked hlt).used
    have hstream : (reg.setAllChunkSize v).stream idx =
        { reg.stream idx with chunkSize := v } := by
      have hget := ChunkRegistry.stream_get? hlt
      rw [hset, ChunkRegistry.stream, List.getD_eq_getElem?_getD, List.getElem?_map, hget,
        Option.map_some, Option.getD_some, if_pos hused]
    rw [h.get_eq hi, h'.get_eq (hidx.trans hi), hstream]
    rfl

structure Replaced (reg : ChunkRegistry) (csid : Nat) (s : ChunkStream) (reg' : ChunkRegistry) :
    Prop where
  self : reg'.get csid = some s
  other : ∀ c, c ≠ csid → reg'.get c = reg.get c
  bytes : reg'.reassemblyBytesInUse = reg.reassemblyBytesInUse -
    (reg.opened csid).reassemblyBuf.available + s.reassemblyBuf.available
  count : reg'.reassemblingCount = reg.reassemblingCount -
    (reg.opened csid).reassembling.toNat + s.reassembling.toNat
  size : reg'.defaultSize = reg.defaultSize
  msg_length : reg'.maxMsgLength = reg.maxMsgLength
  active : reg'.maxActiveCsids = reg.maxActiveCsids
  max_bytes : reg'.maxReassemblyBytes = reg.maxReassemblyBytes
  table : reg'.streams.length = reg.streams.length + (reg.get csid).isNone.toNat

theorem landing_index (h : Accounted reg) (hl : reg.Landing csid reg1 idx) :
    reg1.csidIndex csid = some idx ∧ (∀ c, c ≠ csid → reg1.csidIndex c = reg.csidIndex c) ∧
      reg1.streams.length = reg.streams.length + (reg.get csid).isNone.toNat := by
  cases hl with
  | found hs _ =>
    refine ⟨by rw [← h.slot_eq, hs], fun _ _ => rfl, ?_⟩
    rw [ChunkRegistry.get_of_slot hs]
    rfl
  | pushed hs _ _ =>
    refine ⟨if_pos rfl, fun c hc => if_neg hc, ?_⟩
    rw [ChunkRegistry.get, hs]
    simp [ChunkRegistry.pushStream]

theorem landing_stream (hl : reg.Landing csid reg1 idx) {i : Nat}
    (hi : i < reg.streams.length) : reg1.stream i = reg.stream i := by
  cases hl with
  | found _ _ => rfl
  | pushed _ _ _ =>
    simp [ChunkRegistry.stream, ChunkRegistry.pushStream, List.getD_eq_getElem?_getD,
      List.getElem?_append, hi]

/-- A stream put in place changes no other. -/
theorem Accounted.replaced (h : Accounted reg)
    (hl : reg.Landing csid reg1 idx) (h' : Accounted (reg1.place idx s)) :
    Replaced reg csid s (reg1.place idx s) := by
  obtain ⟨hbytes, hcount, hsize, hm, ha, hb⟩ := hl.counters
  obtain ⟨hself, hother, htable⟩ := landing_index h hl
  constructor
  case self =>
    rw [h'.get_eq hself]
    exact congrArg some (ChunkRegistry.put_stream s _ _ hl.lt)
  case other =>
    intro c hc
    cases hi : reg.csidIndex c with
    | none =>
      have hn : (reg1.place idx s).csidIndex c = none := (hother c hc).trans hi
      rw [ChunkRegistry.get, ChunkRegistry.get, h.slot_eq, h'.slot_eq, hi, hn]
      rfl
    | some i =>
      have hi' : (reg1.place idx s).csidIndex c = some i := (hother c hc).trans hi
      have hne : idx ≠ i := by
        intro he
        subst he
        obtain ⟨u, hu, rfl⟩ := (h'.index c idx).mp hi'
        obtain ⟨v, hv, rfl⟩ := (h'.index csid idx).mp hself
        rw [hu] at hv
        cases hv
        exact hc rfl
      rw [h'.get_eq hi', h.get_eq hi, ← landing_stream hl (reg.indexed c i hi)]
      simp [ChunkRegistry.stream, ChunkRegistry.place, ChunkRegistry.put,
        List.getD_eq_getElem?_getD, hne]
  case bytes =>
    rw [ChunkRegistry.place, hl.stream_eq, hbytes]
    rfl
  case count =>
    rw [ChunkRegistry.place, hl.stream_eq, hcount]
    rfl
  case size => exact hsize
  case msg_length => exact hm
  case active => exact ha
  case max_bytes => exact hb
  case table => simpa [ChunkRegistry.place, ChunkRegistry.put] using htable

end Proofs

end LibRtmp
