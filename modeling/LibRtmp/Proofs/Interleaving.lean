import LibRtmp.Proofs.Feeding
import LibRtmp.Proofs.Encoding

namespace LibRtmp.Proofs

open Wire

def absoluteHeader (m : Message) : ChunkMessage where
  csid := m.csid
  fmt := 0
  timestamp := m.timestamp
  msgLength := m.payload.length
  msgTypeId := m.typeId
  msgStreamId := m.streamId

def writtenChunks (c : Nat) (m : Message) : List Chunk :=
  wireFirst m.csid 0 m.timestamp m.payload.length m.typeId m.streamId (m.payload.take c) ::
    wireRest m.csid (extendedTs m.timestamp) c (m.payload.drop c)

def progress (at_ : Nat × Nat) (w : Chunk) : Nat × Nat :=
  let got := match w.header with
    | .same => (at_.1 + w.data.length, at_.2)
    | hd => (w.data.length, hd.length)
  if got.1 < got.2 then got else (0, 0)

def received (seen : List Chunk) (csid : Nat) : Nat :=
  ((seen.filter (fun w => w.csid = csid)).foldl progress (0, 0)).1

def receivedBytes (ids : List Nat) (seen : List Chunk) : Nat := (ids.map (received seen)).sum

def receivedCount (ids : List Nat) (seen : List Chunk) : Nat :=
  (ids.map (fun id => if received seen id = 0 then 0 else 1)).sum

/-- There is room for every next chunk, and a free place when it starts a message. -/
structure WithinLimits (lim : Limits) (ids : List Nat) (ws : List Chunk) : Prop where
  bytes : ∀ seen w later, ws = seen ++ w :: later →
    receivedBytes ids seen + w.data.length ≤ lim.reassembly
  active : ∀ seen w later, ws = seen ++ w :: later → w.header.fmt = 0 →
    receivedCount ids seen < lim.active

/-- Every chunk stream's own chunks are there in its own order. -/
structure Interleaves (c : Nat) (ids : List Nat) (mss : Nat → List Message) (ws : List Chunk) :
    Prop where
  mem : ∀ w ∈ ws, w.csid ∈ ids
  own : ∀ id ∈ ids, ws.filter (fun w => w.csid = id) = (mss id).flatMap (writtenChunks c)

structure Admitted (lim : Limits) (csid : Nat) (m : Message) : Prop where
  valid : ValidCsid csid
  id : m.csid = csid
  wire : m.payload.length ≤ rtmpWireMaxMsgLength
  length_le : m.payload.length ≤ lim.msgLength

/-- The chunks of a message are what `chunk_write` appends. -/
theorem chunk_write_chunks {m : Message} {c : Nat} (hc : 0 < c) {out out' : Buffer}
    (hw : (chunkWrite (absoluteHeader m) m.payload m.payload.length c).on out = (.ok (), out')) :
    out'.peek = out.peek ++ ((writtenChunks c m).map Chunk.bytes).flatten := by
  obtain ⟨-, hp⟩ := chunk_write_ok hw
  have hsize : sizeOrDefault c = c := if_neg (Nat.pos_iff_ne_zero.mp hc)
  have hbytes := @message_bytes_wire m.csid 0 m.payload.length m.timestamp m.typeId m.streamId
    (Nat.zero_le 2) m.payload c (extendedTs m.timestamp)
  rw [hp, List.take_length, messageBytes]
  rw [hsize] at hbytes
  exact congrArg (out.peek ++ ·) hbytes

variable {c csid maxLen : Nat} {lim : Limits} {ids : List Nat} {ws : List Chunk}
  {ms : List Message} {w : Chunk} {p : Peer}

/-- What a chunk stream has still to send: the rest of a message, and whole messages. -/
inductive Owes (lim : Limits) (c csid : Nat) : Peer → List Chunk → List Message → Prop where
  | idle (ctx : Context) {ms : List Message} (ok : ∀ m ∈ ms, Admitted lim csid m) :
      Owes lim c csid { ctx } (ms.flatMap (writtenChunks c)) ms
  | inside (ctx : Context) {sent rest : List UInt8} {ext : Option UInt32} {ms : List Message}
      (valid : ValidCsid csid) (some_sent : sent ≠ []) (some_left : rest ≠ [])
      (total : sent.length + rest.length = ctx.length) (length_le : ctx.length ≤ lim.msgLength)
      (field : ext.isSome = ctx.ext) (ok : ∀ m ∈ ms, Admitted lim csid m) :
      Owes lim c csid { ctx, sent, rest }
        (wireRest csid ext c rest ++ ms.flatMap (writtenChunks c))
        (ctx.message csid (sent ++ rest) :: ms)

def progressOf (p : Peer) : Nat × Nat :=
  (p.sent.length, if p.rest = [] then 0 else p.ctx.length)

theorem Owes.idle_iff {ws : List Chunk} (ho : Owes lim c csid p ws ms) :
    p.sent.length = 0 ↔ p.rest = [] := by
  cases ho with
  | idle => exact ⟨fun _ => rfl, fun _ => rfl⟩
  | inside _ _ some_sent some_left =>
    have hpos := List.length_pos_iff.mpr some_sent
    exact ⟨fun h => absurd h (Nat.ne_of_gt hpos), fun h => absurd h some_left⟩

theorem wire_rest_cons {ext : Option UInt32} {rest : List UInt8} (hc : 0 < c) (hr : rest ≠ []) :
    wireRest csid ext c rest = ⟨csid, basicHeader csid 3, .same, ext, rest.take c⟩ ::
      wireRest csid ext c (rest.drop c) := by
  rw [wireRest, Slices.chunks_cons hr hc, List.map_cons]
  rfl

/-- Nothing more to send means no more messages. -/
theorem Owes.none_left (hc : 0 < c) (ho : Owes lim c csid p [] ms) : ms = [] := by
  generalize hws : ([] : List Chunk) = ws at ho
  cases ho with
  | idle ctx ok =>
    cases ms with
    | nil => rfl
    | cons m ms => cases hws
  | inside ctx valid some_sent some_left =>
    rw [wire_rest_cons hc some_left] at hws
    cases hws

/-- What is owed after a chunk that leaves `rest` of its message unsent. -/
theorem owes_after {ctx : Context} {sent rest : List UInt8} {ext : Option UInt32}
    (valid : ValidCsid csid) (some_sent : rest ≠ [] → sent ≠ [])
    (total : sent.length + rest.length = ctx.length) (length_le : ctx.length ≤ lim.msgLength)
    (field : ext.isSome = ctx.ext) (ok : ∀ m ∈ ms, Admitted lim csid m) :
    (∃ ms', ctx.message csid (sent ++ rest) :: ms =
        (Peer.finished csid ctx sent rest).toList ++ ms' ∧
      Owes lim c csid (.after ctx sent rest)
        (wireRest csid ext c rest ++ ms.flatMap (writtenChunks c)) ms') ∧
    (if sent.length < ctx.length then (sent.length, ctx.length) else (0, 0)) =
      progressOf (.after ctx sent rest) := by
  by_cases hr : rest = []
  · subst hr
    rw [List.length_nil, Nat.add_zero] at total
    rw [Peer.after, Peer.finished, if_pos rfl, if_pos rfl, List.append_nil, wireRest,
      Slices.chunks_nil, if_neg (Nat.not_lt_of_le (Nat.le_of_eq total.symm))]
    exact ⟨⟨ms, rfl, .idle ctx ok⟩, rfl⟩
  · have hpos := List.length_pos_iff.mpr hr
    rw [Peer.after, Peer.finished, if_neg hr, if_neg hr, if_pos (by omega), progressOf, if_neg hr]
    exact ⟨⟨_, rfl, .inside ctx valid (some_sent hr) hr total length_le field ok⟩, rfl⟩

/-- The next chunk that a stream owes is one a conforming peer may send. -/
theorem Owes.step (hc : 0 < c) (ho : Owes lim c csid p (w :: ws) ms) :
    ∃ p' m ms', Emits c csid p w p' m ∧ ms = m.toList ++ ms' ∧ Owes lim c csid p' ws ms' ∧
      messageLength p w ≤ lim.msgLength ∧ (p.rest = [] → w.header.fmt = 0) ∧
      progress (progressOf p) w = progressOf p' := by
  generalize hws : w :: ws = vs at ho
  cases ho with
  | idle ctx ok =>
    cases ms with
    | nil => cases hws
    | cons m ms =>
      obtain ⟨valid, rfl, wire, length_le⟩ := ok m List.mem_cons_self
      rw [List.flatMap_cons, writtenChunks, List.cons_append] at hws
      obtain ⟨rfl, rfl⟩ := List.cons.inj hws
      have hnext := @wire_first_absolute m.csid m.payload.length m.timestamp m.typeId m.streamId
        ctx (m.payload.take c)
      have hlen := congrArg Context.length hnext
      have hstart := wire_first_starts valid (Nat.zero_le 2) wire (fun h => by cases h) hlen.symm
      have hcut : (m.payload.take c).length + (m.payload.drop c).length = m.payload.length := by
        rw [← List.length_append, List.take_append_drop]
      have htake : m.payload.drop c ≠ [] → m.payload.take c ≠ [] := by
        intro hd ht
        rcases List.take_eq_nil_iff.mp ht with h | h
        · omega
        · rw [h] at hd
          exact hd List.drop_nil
      obtain ⟨⟨ms', hms', howes⟩, hprog⟩ := @owes_after c m.csid lim ms
        (ctx.next _) (m.payload.take c) (m.payload.drop c) (extendedTs m.timestamp) valid htake
        (hcut.trans hlen.symm) (hlen ▸ length_le) (congrArg Context.ext hnext).symm
        (fun n hn => ok n (List.mem_cons_of_mem _ hn))
      rw [List.take_append_drop] at hms'
      refine ⟨_, _, ms', .start hstart.wf hstart.id hstart.known hstart.ext hstart.length
        hstart.data, ?_, howes, ?_, fun _ => rfl, ?_⟩
      · rw [← hms', hnext]
        rfl
      · rw [messageLength, if_pos rfl, hlen]
        exact length_le
      · rw [← hprog, hlen]
        rfl
  | @inside ctx sent rest ext ms valid some_sent some_left total length_le field ok =>
    rw [wire_rest_cons hc some_left, List.cons_append] at hws
    obtain ⟨rfl, rfl⟩ := List.cons.inj hws
    have hcont := wire_rest_continues valid ext hc rest
    rw [wire_rest_cons hc some_left] at hcont
    have hcut : (rest.take c).length + (rest.drop c).length = rest.length := by
      rw [← List.length_append, List.take_append_drop]
    have hlen : (sent ++ rest.take c).length + (rest.drop c).length = ctx.length := by
      rw [List.length_append]
      omega
    obtain ⟨⟨ms', hms', howes⟩, hprog⟩ := @owes_after c csid lim ms ctx (sent ++ rest.take c)
      (rest.drop c) ext valid (fun _ h => some_sent (List.append_eq_nil_iff.mp h).1) hlen length_le
      field ok
    rw [List.append_assoc, List.take_append_drop] at hms'
    cases hcont with
    | cons wf id fmt hfield open_ data next =>
      refine ⟨_, _, ms', .more wf id fmt (field ▸ rfl) open_ data, hms', howes, ?_,
        fun h => absurd h some_left, ?_⟩
      · rw [messageLength, if_neg some_left]
        exact length_le
      · rw [← hprog, List.length_append]
        simp only [progress, progressOf, if_neg some_left]

theorem emits_message_csid {p' : Peer} {m : Option Message} (he : Emits c csid p w p' m) :
    ∀ x ∈ m.toList, x.csid = csid := by
  have hfin : ∀ ctx sent rest, ∀ x ∈ (Peer.finished csid ctx sent rest).toList,
      x.csid = csid := by
    intro ctx sent rest x hx
    rw [Option.mem_toList, Peer.finished] at hx
    split at hx
    · cases hx
      rfl
    · cases hx
  cases he with
  | start => exact hfin _ _ _
  | more => exact hfin _ _ _

theorem sends_csid {size : Message → Option Nat} {load : Load} {c' : Nat} {ps qs : Nat → Peer}
    (hs : Sends size lim load ids c ps ws ms c' qs) : ∀ m ∈ ms, m.csid ∈ ids := by
  induction hs with
  | nil => exact fun m hm => by cases hm
  | part _ _ _ _ ih => exact ih
  | last mem _ emits _ ih =>
    intro m hm
    cases hm with
    | head => exact (emits_message_csid emits _ (Option.mem_toList.mpr rfl)) ▸ mem
    | tail _ hm => exact ih m hm

/-- What has been seen, what every chunk stream still owes, and the receiver's progress. -/
structure Under (lim : Limits) (c : Nat) (ids : List Nat) (seen ws : List Chunk)
    (ps : Nat → Peer) (mss : Nat → List Message) : Prop where
  mem : ∀ w ∈ ws, w.csid ∈ ids
  owes : ∀ id ∈ ids, Owes lim c id (ps id) (ws.filter (fun w => w.csid = id)) (mss id)
  at_ : ∀ id ∈ ids,
    (seen.filter (fun w => w.csid = id)).foldl progress (0, 0) = progressOf (ps id)

theorem Under.received_eq {seen : List Chunk} {ps : Nat → Peer} {mss : Nat → List Message}
    (hu : Under lim c ids seen ws ps mss) {id : Nat} (hid : id ∈ ids) :
    received seen id = (ps id).sent.length := by
  rw [received, hu.at_ id hid]
  rfl

theorem Under.affords {seen total : List Chunk} {ps : Nat → Peer} {mss : Nat → List Message}
    (hu : Under lim c ids seen (w :: ws) ps mss) (hlim : WithinLimits lim ids total)
    (htotal : total = seen ++ w :: ws) (hlen : messageLength (ps w.csid) w ≤ lim.msgLength)
    (hstart : (ps w.csid).rest = [] → w.header.fmt = 0) : Affords lim {} ids ps w where
  length_le := hlen
  bytes := by
    intro _
    have hbytes : receivedBytes ids seen = partialBytes ids ps :=
      congrArg List.sum (List.map_congr_left (fun id hid => hu.received_eq hid))
    have hroom := hlim.bytes seen w ws htotal
    rw [hbytes] at hroom
    exact (Nat.zero_add _).symm ▸ hroom
  active := by
    intro hi
    have hcount : receivedCount ids seen = partialCount ids ps := by
      apply congrArg List.sum (List.map_congr_left _)
      intro id hid
      rw [hu.received_eq hid]
      exact if_congr (hu.owes id hid).idle_iff rfl rfl
    have hroom := hlim.active seen w ws htotal (hstart hi)
    rw [hcount] at hroom
    exact (Nat.zero_add _).symm ▸ hroom

theorem Under.step {seen : List Chunk} {ps : Nat → Peer} {mss : Nat → List Message}
    (hu : Under lim c ids seen (w :: ws) ps mss) {p' : Peer} {ms' : List Message}
    (ho : Owes lim c w.csid p' (ws.filter (fun v => v.csid = w.csid)) ms')
    (hp : progress (progressOf (ps w.csid)) w = progressOf p') :
    Under lim c ids (seen ++ [w]) ws (Function.update ps w.csid p')
      (Function.update mss w.csid ms') where
  mem := fun v hv => hu.mem v (List.mem_cons_of_mem _ hv)
  owes := by
    intro id hid
    by_cases he : id = w.csid
    · subst he
      rw [Function.update_self, Function.update_self]
      exact ho
    · have hown := hu.owes id hid
      rw [List.filter_cons_of_neg (by simp [Ne.symm he])] at hown
      rw [Function.update_of_ne he, Function.update_of_ne he]
      exact hown
  at_ := by
    intro id hid
    rw [List.filter_append, List.foldl_append, hu.at_ id hid]
    by_cases he : id = w.csid
    · subst he
      rw [Function.update_self, List.filter_cons_of_pos (by simp)]
      exact hp
    · rw [Function.update_of_ne he, List.filter_cons_of_neg (by simp [Ne.symm he])]
      rfl

/-- Every interleaving within the limits is a run of conforming peers. -/
theorem under_sends (hc : 0 < c) {seen total : List Chunk} {ps : Nat → Peer}
    {mss : Nat → List Message} (hu : Under lim c ids seen ws ps mss)
    (hlim : WithinLimits lim ids total) (htotal : total = seen ++ ws) :
    ∃ ms qs, Sends noResize lim {} ids c ps ws ms c qs ∧
      ∀ id ∈ ids, ms.filter (fun m => m.csid = id) = mss id := by
  induction ws generalizing seen ps mss with
  | nil => exact ⟨[], ps, .nil c ps, fun id hid => ((hu.owes id hid).none_left hc).symm⟩
  | cons w ws ih =>
    have hid := hu.mem w List.mem_cons_self
    have hown := hu.owes w.csid hid
    rw [List.filter_cons_of_pos (by simp)] at hown
    obtain ⟨p', m, ms', hem, hms, ho, hlen, hstart, hprog⟩ := hown.step hc
    have haff := hu.affords hlim htotal hlen hstart
    obtain ⟨ms, qs, hsends, hfilter⟩ := ih (hu.step ho hprog) (by rw [htotal]; simp)
    have hrun : Sends noResize lim {} ids c ps (w :: ws) (m.toList ++ ms) c qs := by
      cases m with
      | none => exact .part hid haff hem hsends
      | some n => exact .last hid haff hem hsends
    refine ⟨m.toList ++ ms, qs, hrun, ?_⟩
    intro id hid'
    rw [List.filter_append, hfilter id hid']
    by_cases he : id = w.csid
    · subst he
      rw [Function.update_self, hms, List.filter_eq_self.mpr]
      intro x hx
      exact decide_eq_true (emits_message_csid hem x hx)
    · rw [Function.update_of_ne he, List.filter_eq_nil_iff.mpr]
      · rfl
      · intro x hx
        rw [emits_message_csid hem x hx]
        simp [Ne.symm he]

/-- Message sequences of up to 4096 chunk streams, each written with absolute headers at one
chunk size and interleaved in any way: every chunk stream gets exactly its own messages. -/
theorem chunk_streams_undisturbed (msgLength : UInt32) (activeCsids reassembly : UInt64)
    (c : Nat) (hc : defaultChunkSize ≤ c ∧ c ≤ maxPeerChunkSize) (ids : List Nat)
    (hn : ids.Nodup) (hids : ids.length ≤ maxChunkStreams) (mss : Nat → List Message)
    (hmss : ∀ id ∈ ids, ∀ m ∈ mss id,
      Admitted ⟨msgLength.toNat, activeCsids.toNat, reassembly.toNat⟩ id m)
    (ws : List Chunk) (hws : Interleaves c ids mss ws)
    (hlim : WithinLimits ⟨msgLength.toNat, activeCsids.toNat, reassembly.toNat⟩ ids ws) :
    (∀ id ∈ ids, ∀ m ∈ mss id, ∀ out out',
      (chunkWrite (absoluteHeader m) m.payload m.payload.length c).on out = (.ok (), out') →
      out'.peek = out.peek ++ ((writtenChunks c m).map Chunk.bytes).flatten) ∧
    ∃ ms, DecodesTo noControl
        ((ChunkRegistry.new.withLimits msgLength activeCsids reassembly).setAllChunkSize c)
        (ws.map Chunk.bytes).flatten ms ∧
      (∀ id ∈ ids, ms.filter (fun m => m.csid = id) = mss id) ∧ ∀ m ∈ ms, m.csid ∈ ids := by
  have hpos : 0 < c := Nat.lt_of_lt_of_le (by decide) hc.1
  refine ⟨fun id _ m _ out out' h => chunk_write_chunks hpos h, ?_⟩
  have hu : Under ⟨msgLength.toNat, activeCsids.toNat, reassembly.toNat⟩ c ids [] ws
      (fun _ => {}) mss := by
    refine ⟨hws.mem, fun id hid => ?_, fun _ _ => rfl⟩
    rw [hws.own id hid]
    exact .idle {} (hmss id hid)
  obtain ⟨ms, qs, hsends, hown⟩ := under_sends hpos hu hlim rfl
  have hsync := (sync_new msgLength activeCsids reassembly ids).resize hc
  refine ⟨ms, sends_decode hn (by rw [Nat.zero_add]; exact hids) hsends (no_control ms)
    (resize_limits _ _) hsync, hown, sends_csid hsends⟩

/-- A short message on one chunk stream in the middle of a long one on another. -/
theorem short_between_long :
    ∃ ms, DecodesTo noControl
        ((ChunkRegistry.new.withLimits 1000 2 1000).setAllChunkSize 128)
        (([⟨3, [3], .full 0 129 9 1, none, List.replicate 128 0⟩,
          ⟨4, [4], .full 5 1 8 1, none, [7]⟩, ⟨3, [0xC3], .same, none, [0]⟩] : List Chunk).map
          Chunk.bytes).flatten ms ∧
      ms.filter (fun m => m.csid = 3) = [⟨3, 0, 9, 1, List.replicate 129 0⟩] ∧
      ms.filter (fun m => m.csid = 4) = [⟨4, 5, 8, 1, [7]⟩] := by
  have hlong : writtenChunks 128 ⟨3, 0, 9, 1, List.replicate 129 0⟩ =
      [⟨3, [3], .full 0 129 9 1, none, List.replicate 128 0⟩, ⟨3, [0xC3], .same, none, [0]⟩] := by
    rw [writtenChunks, wireRest, Slices.chunks_cons (by decide) (by decide), Slices.chunks,
      dif_pos (.inl rfl)]
    rfl
  have hshort : writtenChunks 128 ⟨4, 5, 8, 1, [7]⟩ = [⟨4, [4], .full 5 1 8 1, none, [7]⟩] := by
    rw [writtenChunks, wireRest, Slices.chunks, dif_pos (.inl rfl)]
    rfl
  obtain ⟨-, ms, hdec, hown, -⟩ := chunk_streams_undisturbed 1000 2 1000 128 (by decide) [3, 4]
    (by decide) (by decide)
    (fun id => if id = 3 then [⟨3, 0, 9, 1, List.replicate 129 0⟩] else [⟨4, 5, 8, 1, [7]⟩])
    (by
      intro id hid m hm
      rcases List.mem_pair.mp hid with rfl | rfl
      · obtain rfl := List.mem_singleton.mp hm
        exact ⟨⟨by decide, by decide⟩, rfl, by decide +kernel, by decide +kernel⟩
      · obtain rfl := List.mem_singleton.mp hm
        exact ⟨⟨by decide, by decide⟩, rfl, by decide +kernel, by decide +kernel⟩)
    [⟨3, [3], .full 0 129 9 1, none, List.replicate 128 0⟩, ⟨4, [4], .full 5 1 8 1, none, [7]⟩,
      ⟨3, [0xC3], .same, none, [0]⟩]
    (by
      refine ⟨by simp, fun id hid => ?_⟩
      rcases List.mem_pair.mp hid with rfl | rfl
      · exact hlong.symm.trans (by simp)
      · exact hshort.symm.trans (by simp))
    (by
      constructor
      · rintro (_ | ⟨x, _ | ⟨y, _ | ⟨z, seen⟩⟩⟩) w later h <;> simp at h
        · obtain ⟨rfl, -⟩ := h
          decide +kernel
        · obtain ⟨rfl, rfl, -⟩ := h
          decide +kernel
        · obtain ⟨rfl, rfl, rfl, -⟩ := h
          decide +kernel
      · rintro (_ | ⟨x, _ | ⟨y, _ | ⟨z, seen⟩⟩⟩) w later h hf <;> simp at h
        · obtain ⟨rfl, -⟩ := h
          decide +kernel
        · obtain ⟨rfl, rfl, -⟩ := h
          decide +kernel
        · obtain ⟨rfl, rfl, rfl, -⟩ := h
          decide +kernel)
  exact ⟨ms, hdec, hown 3 (by decide), hown 4 (by decide)⟩

/-- A chunk that completes its message counts towards the cap while it is read: a one-byte
message is refused at cap 0, although no part of a message is ever held. -/
theorem completing_chunk_refused :
    Interleaves 128 [3] (fun _ => [⟨3, 0, 20, 0, [7]⟩]) [⟨3, [3], .full 0 1 20 0, none, [7]⟩] ∧
      (∀ seen later, [(⟨3, [3], .full 0 1 20 0, none, [7]⟩ : Chunk)] = seen ++ later →
        receivedBytes [3] seen = 0 ∧ receivedCount [3] seen = 0) ∧
      (chunkRead (Buffer.fromSlice [3, 0, 0, 0, 0, 0, 1, 20, 0, 0, 0, 0, 7] (by decide))
        (ChunkRegistry.new.withLimits 100 1 0) {}).2 = .error .chunk := by
  have hshort : writtenChunks 128 ⟨3, 0, 20, 0, [7]⟩ = [⟨3, [3], .full 0 1 20 0, none, [7]⟩] := by
    rw [writtenChunks, wireRest, Slices.chunks, dif_pos (.inl rfl)]
    rfl
  refine ⟨⟨by simp, fun id hid => ?_⟩, ?_, rfl⟩
  · obtain rfl := List.mem_singleton.mp hid
    exact hshort.symm.trans (by simp)
  · rintro (_ | ⟨x, seen⟩) later h
    · exact ⟨rfl, rfl⟩
    · simp only [List.cons_append, List.cons.injEq] at h
      obtain ⟨rfl, hnil⟩ := h
      obtain ⟨rfl, -⟩ := List.append_eq_nil_iff.mp hnil.symm
      exact ⟨rfl, rfl⟩

end LibRtmp.Proofs
