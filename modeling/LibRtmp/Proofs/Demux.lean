import LibRtmp.Proofs.PeerRead

namespace LibRtmp.Proofs

open Wire

variable {reg reg' : ChunkRegistry} {w : Chunk} {load : Load} {ids : List Nat} {c csid : Nat}
  {ps : Nat → Peer} {p p' : Peer} {m : Option Message} {s : ChunkStream}

def limitsOf (reg : ChunkRegistry) : Limits :=
  ⟨reg.maxMsgLength.toNat, reg.maxActiveCsids.toNat, reg.maxReassemblyBytes.toNat⟩

/-- The reader has followed the peers of the chunk streams `ids`; the rest takes up `load`. -/
structure Sync (reg : ChunkRegistry) (load : Load) (ids : List Nat) (c : Nat) (ps : Nat → Peer) :
    Prop where
  acc : Accounted reg
  size : reg.defaultSize = c
  agrees : ∀ id ∈ ids, Agrees (reg.opened id) (ps id)
  bytes : reg.reassemblyBytesInUse = load.bytes + partialBytes ids ps
  count : reg.reassemblingCount = load.count + partialCount ids ps
  table : reg.streams.length =
    load.table + (ids.map (fun id => (reg.get id).isSome.toNat)).sum

theorem registered_lt {get : Nat → Option ChunkStream} (h : csid ∈ ids) (hg : get csid = none) :
    (ids.map (fun id => (get id).isSome.toNat)).sum < ids.length := by
  have hle : ∀ ks : List Nat, (ks.map (fun id => (get id).isSome.toNat)).sum ≤ ks.length := by
    intro ks
    induction ks with
    | nil => exact Nat.le_refl _
    | cons k ks ih =>
      have hb := Bool.toNat_le (get k).isSome
      simp only [List.map_cons, List.sum_cons, List.length_cons]
      omega
  induction ids with
  | nil => cases h
  | cons k ks ih =>
    simp only [List.map_cons, List.sum_cons, List.length_cons]
    cases h with
    | head =>
      rw [hg, Option.isSome_none, Bool.toNat_false, Nat.zero_add]
      exact Nat.lt_succ_of_le (hle ks)
    | tail _ ht =>
      have hb := Bool.toNat_le (get k).isSome
      have := ih ht
      omega

theorem Sync.room (hs : Sync reg load ids c ps) (ht : load.table + ids.length ≤ maxChunkStreams)
    (mem : w.csid ∈ ids) (ha : Affords (limitsOf reg) load ids ps w) :
    Room reg w.csid (messageLength (ps w.csid) w) (ps w.csid) w where
  length_le := ha.length_le
  bytes := by
    intro hd
    rw [hs.bytes]
    exact ha.bytes hd
  active := by
    intro hi
    rw [hs.count]
    exact ha.active hi
  table := by
    intro hg
    have := registered_lt mem hg
    rw [hs.table]
    omega

theorem Replaced.opened_self (hr : Replaced reg csid s reg') : reg'.opened csid = s := by
  rw [ChunkRegistry.opened, hr.self]
  rfl

theorem Replaced.opened_other (hr : Replaced reg csid s reg') {id : Nat} (h : id ≠ csid) :
    reg'.opened id = reg.opened id := by
  rw [ChunkRegistry.opened, ChunkRegistry.opened, hr.other id h, hr.size]

theorem Replaced.get_eq (hr : Replaced reg csid s reg') :
    reg'.get = Function.update reg.get csid (some s) := by
  funext id
  by_cases h : id = csid
  · subst h
    rw [hr.self, Function.update_self]
  · rw [hr.other id h, Function.update_of_ne h]

theorem Replaced.limits_eq (hr : Replaced reg csid s reg') : limitsOf reg' = limitsOf reg := by
  rw [limitsOf, limitsOf, hr.msg_length, hr.active, hr.max_bytes]

theorem Agrees.flag (ha : Agrees s p) (ht : Tracked reg s) :
    s.reassembling.toNat = if p.rest = [] then 0 else 1 := by
  have hread := ha.bytes_read ht
  by_cases hr : p.rest = []
  · rw [if_pos hr]
    have hz : s.reassemblyBytesRead = 0 := by rw [hread, ha.idle hr]; rfl
    cases hf : s.reassembling with
    | false => rfl
    | true => exact absurd hz (ht.flag.mpr hf)
  · rw [if_neg hr]
    have hn : s.reassemblyBytesRead ≠ 0 := by
      rw [hread]
      exact fun he => ha.begun hr (List.eq_nil_of_length_eq_zero he)
    rw [ht.flag.mp hn]
    rfl

theorem Agrees.available (ha : Agrees s p) : s.reassemblyBuf.available = p.sent.length := by
  rw [Buffer.available_eq, ha.sent]

/-- A chunk keeps the reader in step with the peers. -/
theorem Sync.advance (hs : Sync reg load ids c ps) (hn : ids.Nodup) (mem : csid ∈ ids)
    (hacc : Accounted reg') (hr : Replaced reg csid s reg') (ha : Agrees s p') :
    Sync reg' load ids c (Function.update ps csid p') := by
  have hold := hs.agrees csid mem
  have hflag := hold.flag (hs.acc.opened_tracked csid)
  have htr := hacc.opened_tracked csid
  rw [hr.opened_self] at htr
  have hflag' := ha.flag htr
  have hle := hs.acc.opened_le csid
  have hfle := hs.acc.opened_flag_le csid
  constructor
  case acc => exact hacc
  case size => rw [hr.size, hs.size]
  case agrees =>
    intro id hid
    by_cases h : id = csid
    · subst h
      rw [hr.opened_self, Function.update_self]
      exact ha
    · rw [hr.opened_other h, Function.update_of_ne h]
      exact hs.agrees id hid
  case bytes =>
    have hsum := Table.sum_update ps (fun p => p.sent.length) p' hn mem
    have hb := hs.bytes
    rw [hr.bytes, ha.available]
    rw [hold.available] at hle ⊢
    simp only [partialBytes] at hb ⊢
    omega
  case count =>
    have hsum := Table.sum_update ps (fun p => if p.rest = [] then 0 else 1) p' hn mem
    have hb := hs.count
    rw [hr.count, hflag']
    rw [hflag] at hfle ⊢
    simp only [partialCount] at hb ⊢
    omega
  case table =>
    have hsum := Table.sum_update reg.get (fun o => o.isSome.toNat) (some s) hn mem
    have hb := hs.table
    rw [hr.table, hr.get_eq]
    cases hg : reg.get csid with
    | none =>
      simp only [hg, Option.isNone_none, Option.isSome_none, Option.isSome_some, Bool.toNat_true,
        Bool.toNat_false] at hsum ⊢
      omega
    | some _ =>
      simp only [hg, Option.isNone_some, Option.isSome_some, Bool.toNat_true,
        Bool.toNat_false] at hsum ⊢
      omega

/-- A new chunk size touches neither headers nor partial messages. -/
theorem Sync.resize (hs : Sync reg load ids c ps) {v : Nat}
    (hv : defaultChunkSize ≤ v ∧ v ≤ maxPeerChunkSize) :
    Sync (reg.setAllChunkSize v) load ids v ps := by
  have hget := set_chunk_size_get hv hs.acc
  have hset : ¬(v < defaultChunkSize ∨ v > maxPeerChunkSize) := by omega
  constructor
  case acc => exact hs.acc.set_chunk_size v
  case size => rw [ChunkRegistry.setAllChunkSize, if_neg hset]
  case agrees =>
    intro id hid
    obtain ⟨⟨h1, h2, h3, h4, h5, h6, h7⟩, h8, h9, h10, h11⟩ := hs.agrees id hid
    rw [ChunkRegistry.opened, hget]
    rw [ChunkRegistry.opened] at h1 h2 h3 h4 h5 h6 h7 h8
    cases hg : reg.get id with
    | none =>
      rw [hg] at h1 h2 h3 h4 h5 h6 h7 h8
      exact ⟨⟨h1, h2, h3, h4, h5, h6, h7⟩, h8, h9, h10, h11⟩
    | some t =>
      rw [hg] at h1 h2 h3 h4 h5 h6 h7 h8
      exact ⟨⟨h1, h2, h3, h4, h5, h6, h7⟩, h8, h9, h10, h11⟩
  case bytes =>
    rw [ChunkRegistry.setAllChunkSize, if_neg hset]
    exact hs.bytes
  case count =>
    rw [ChunkRegistry.setAllChunkSize, if_neg hset]
    exact hs.count
  case table =>
    have hlen : (reg.setAllChunkSize v).streams.length = reg.streams.length := by
      rw [ChunkRegistry.setAllChunkSize, if_neg hset]
      exact List.length_map _
    rw [hlen, hs.table]
    congr 2
    apply List.map_congr_left
    intro id _
    rw [hget]
    simp

/-- A new registry follows peers that have sent nothing yet. -/
theorem sync_new (msgLength : UInt32) (activeCsids reassembly : UInt64) (ids : List Nat) :
    Sync (ChunkRegistry.new.withLimits msgLength activeCsids reassembly) {} ids defaultChunkSize
      (fun _ => {}) where
  acc := new_accounted msgLength activeCsids reassembly
  size := rfl
  agrees := fun _ _ => ⟨⟨rfl, rfl, rfl, rfl, rfl, rfl, rfl⟩, rfl, fun _ => rfl,
    fun h => absurd rfl h, fun h => absurd rfl h⟩
  bytes := by simp [partialBytes, ChunkRegistry.new, ChunkRegistry.withLimits]
  count := by simp [partialCount, ChunkRegistry.new, ChunkRegistry.withLimits]
  table := by
    change 0 = 0 + (ids.map (fun _ => 0)).sum
    simp

theorem resize_limits (reg : ChunkRegistry) (v : Nat) :
    limitsOf (reg.setAllChunkSize v) = limitsOf reg := by
  unfold ChunkRegistry.setAllChunkSize
  split <;> rfl

theorem basic_form_length {fmt : Nat} {b : List UInt8} (hb : BasicForm fmt csid b) :
    0 < b.length ∧ b.length ≤ 3 := by
  cases hb <;> simp

theorem wire_bytes_pos (hw : w.WellFormed) : 0 < w.bytes.length := by
  have hb := basic_form_length hw.basic
  rw [Chunk.bytes, List.length_append]
  omega

variable {control : ChunkRegistry → UInt8 → List UInt8 → ChunkRegistry}

/-- One round of the loop on a wire chunk. -/
theorem read_messages_wire {d : DecodeState} {t : List UInt8} (hacc : Accounted d.reg)
    (ha : Accepts d.reg w) (hb : d.buf.peek = w.bytes ++ t) :
    ∃ b reg', b.peek = t ∧ Accounted reg' ∧
      Replaced d.reg w.csid (applied (d.reg.opened w.csid) w).settled reg' ∧
      ∀ fuel, readMessages borrowed control (fuel + 1) d =
        readMessages borrowed control fuel
          (if (applied (d.reg.opened w.csid) w).complete then
            { d with
              buf := b
              reg := control reg' ((applied (d.reg.opened w.csid) w).message w.head).msgTypeId
                (applied (d.reg.opened w.csid) w).reassemblyBuf.peek
              delivered := d.delivered ++ [⟨(applied (d.reg.opened w.csid) w).message w.head,
                (applied (d.reg.opened w.csid) w).reassemblyBuf.peek⟩] }
          else { d with buf := b, reg := reg' }) := by
  obtain ⟨b, reg', hbp, hacc', hrep, hread⟩ := read_wire hacc ha d.buf {} hb
  refine ⟨b, reg', hbp, hacc', hrep, ?_⟩
  intro fuel
  have hpos := wire_bytes_pos ha.wf
  rw [readMessages, borrowed, hread]
  cases hc : (applied (d.reg.opened w.csid) w).complete with
  | true => simp [ChunkStream.message, Except.map]
  | false =>
    have hlt : ¬d.buf.available ≤ b.available := by
      rw [Buffer.available_eq, Buffer.available_eq, hb, hbp, List.length_append]
      omega
    simp [Except.map, hlt]

/-- One round of the loop in step with the peers. -/
theorem read_round {lim : Limits} {d : DecodeState} {t : List UInt8} (hn : ids.Nodup)
    (ht : load.table + ids.length ≤ maxChunkStreams) (hlim : limitsOf d.reg = lim)
    (hsync : Sync d.reg load ids c ps) (mem : w.csid ∈ ids) (afford : Affords lim load ids ps w)
    (emits : Emits c w.csid (ps w.csid) w p' m) (hb : d.buf.peek = w.bytes ++ t) :
    ∃ b reg' x, b.peek = t ∧ Sync reg' load ids c (Function.update ps w.csid p') ∧
      limitsOf reg' = lim ∧
      (∀ n, m = some n → meaning x = n ∧ x.msg.msgLength = x.payload.length) ∧
      ∀ fuel, readMessages borrowed control (fuel + 1) d =
        readMessages borrowed control fuel
          (if m.isSome then
            { d with
              buf := b
              reg := control reg' x.msg.msgTypeId x.payload
              delivered := d.delivered ++ [x] }
          else { d with buf := b, reg := reg' }) := by
  have hpos : 0 < c := by
    have := hsync.acc.size_ge
    rw [hsync.size, defaultChunkSize] at this
    omega
  have hacc := emits_accepted hsync.acc (hsync.agrees w.csid mem) emits hsync.size
    (hsync.room ht mem (hlim ▸ afford))
  have hadv := emits_advanced hsync.acc (hsync.agrees w.csid mem) emits hpos hacc
  obtain ⟨b, reg', hbp, hacc', hrep, hround⟩ := read_messages_wire hsync.acc hacc hb
  refine ⟨b, reg', ⟨(applied (d.reg.opened w.csid) w).message w.head,
    (applied (d.reg.opened w.csid) w).reassemblyBuf.peek⟩, hbp,
    hsync.advance hn mem hacc' hrep hadv.agrees, hrep.limits_eq.trans hlim, ?_, ?_⟩
  · intro n hm
    obtain ⟨hmean, hlen⟩ := hadv.delivers n hm
    exact ⟨hmean, hlen.trans (by rw [← hmean]; rfl)⟩
  · intro fuel
    rw [hround, hadv.complete]

end LibRtmp.Proofs
