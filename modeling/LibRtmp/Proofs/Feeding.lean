import LibRtmp.Wire.Message
import LibRtmp.Proofs.Splitting
import LibRtmp.Proofs.Demux

namespace LibRtmp.Proofs

open Wire

variable {reg : ChunkRegistry} {w : Chunk} {load : Load} {ids : List Nat} {c c' csid : Nat}
  {ps qs : Nat → Peer} {size : Message → Option Nat} {lim : Limits} {ws : List Chunk}
  {ms : List Message} {control : ChunkRegistry → UInt8 → List UInt8 → ChunkRegistry}

theorem wire_bytes_length (w : Chunk) :
    w.bytes.length = w.head.totalHeader + w.head.toRead := by
  simp [Chunk.bytes, ChunkHead.totalHeader, Chunk.head, Header.bytes_length, Chunk.ext_length,
    Nat.add_assoc]

/-- A part of an acceptable chunk is left for later. -/
theorem part_waits (ha : Accepts reg w) {part t : List UInt8} (hpart : w.bytes = part ++ t)
    (ht : t ≠ []) : peekChunk part reg = .more := by
  by_contra hp
  have happ := peek_chunk_append hp t
  have hready := (ha.ready []).peek
  rw [List.append_nil, hpart, happ] at hready
  have havail := (ready_of_peek hready).avail
  have hlen := congrArg List.length hpart
  have hpos := List.length_pos_iff.mpr ht
  rw [wire_bytes_length, List.length_append] at hlen
  omega

theorem read_messages_waits {d : DecodeState} (hp : peekChunk d.buf.peek d.reg = .more)
    (fuel : Nat) : readMessages borrowed control (fuel + 1) d = some d := by
  simp [readMessages, borrowed, chunkRead, hp, Except.map]

def maxChunkBytes : Nat := 18 + maxPeerChunkSize

/-- What is unread is less than a chunk, and with the bytes still to come it makes up `ws`. -/
structure Waits (d : DecodeState) (left : List UInt8) (ws : List Chunk) : Prop where
  bytes : d.buf.peek ++ left = (ws.map Chunk.bytes).flatten
  short : d.buf.peek.length < maxChunkBytes
  partly : ∀ w, ws.head? = some w → d.buf.peek.length < w.bytes.length

structure Follows (size : Message → Option Nat) (lim : Limits) (load : Load) (ids : List Nat)
    (d : DecodeState) (ws : List Chunk) (ms : List Message) (c' : Nat) (qs : Nat → Peer)
    (d₀ : DecodeState) (done : List Message) : Prop where
  sync : ∃ c ps, Sync d.reg load ids c ps ∧ Sends size lim load ids c ps ws ms c' qs
  limits : limitsOf d.reg = lim
  error : d.error = d₀.error
  refused : d.refused = d₀.refused
  delivered : ∃ ds, d.delivered = d₀.delivered ++ ds ∧ ds.map meaning = done ∧
    ∀ x ∈ ds, x.msg.msgLength = x.payload.length

/-- The control handler sets the chunk sizes of the run, and nothing else. -/
structure Controls (control : ChunkRegistry → UInt8 → List UInt8 → ChunkRegistry)
    (size : Message → Option Nat) (ms : List Message) : Prop where
  applies : ∀ x : Delivery, meaning x ∈ ms → ∀ reg, control reg x.msg.msgTypeId x.payload =
    match size (meaning x) with
    | some v => reg.setAllChunkSize v
    | none => reg
  bounds : ∀ m ∈ ms, ∀ v, size m = some v → defaultChunkSize ≤ v ∧ v ≤ maxPeerChunkSize

theorem Controls.tail {m : Message} (h : Controls control size (m :: ms)) :
    Controls control size ms :=
  ⟨fun x hx => h.applies x (List.mem_cons_of_mem _ hx),
    fun n hn => h.bounds n (List.mem_cons_of_mem _ hn)⟩

/-- Delivering messages without acting on them suits any run at one chunk size. -/
theorem no_control (ms : List Message) : Controls noControl noResize ms :=
  ⟨fun _ _ _ => rfl, fun _ _ _ h => by cases h⟩

/-- The control handler keeps the reader in step. -/
theorem Controls.sync {m : Message} (h : Controls control size (m :: ms))
    (hs : Sync reg load ids c ps) {x : Delivery} (hx : meaning x = m) :
    Sync (control reg x.msg.msgTypeId x.payload) load ids ((size m).getD c) ps ∧
      limitsOf (control reg x.msg.msgTypeId x.payload) = limitsOf reg := by
  rw [h.applies x (by rw [hx]; exact List.mem_cons_self) reg, hx]
  cases hv : size m with
  | none => exact ⟨hs, rfl⟩
  | some v => exact ⟨hs.resize (h.bounds m List.mem_cons_self v hv), resize_limits _ _⟩

theorem emits_well_formed {p p' : Peer} {m : Option Message} (he : Emits c csid p w p' m) :
    w.WellFormed ∧ w.data.length ≤ c := by
  cases he with
  | start wf _ _ _ _ data => exact ⟨wf, by rw [data]; exact List.length_take_le ..⟩
  | more wf _ _ _ _ data => exact ⟨wf, by rw [data]; exact List.length_take_le ..⟩

theorem wire_bytes_le (hw : w.WellFormed) : w.bytes.length ≤ 18 + w.data.length := by
  have hbasic := (basic_form_length hw.basic).2
  have hsize : w.header.size ≤ 11 := by
    cases w.header <;> simp [Header.size]
  have hext : extTsSize w.ext.isSome ≤ 4 := by
    cases w.ext <;> simp [extTsSize]
  rw [wire_bytes_length]
  change w.basic.length + w.header.size + extTsSize w.ext.isSome + w.data.length ≤ _
  omega

/-- With less than the next chunk unread, the reader waits. -/
theorem waits_at {d : DecodeState} {left rest : List UInt8} {p' : Peer} {m : Option Message}
    (ht : load.table + ids.length ≤ maxChunkStreams) (hlim : limitsOf d.reg = lim)
    (hsync : Sync d.reg load ids c ps) (mem : w.csid ∈ ids) (afford : Affords lim load ids ps w)
    (emits : Emits c w.csid (ps w.csid) w p' m) (hb : d.buf.peek ++ left = w.bytes ++ rest)
    (hlt : d.buf.peek.length < w.bytes.length) :
    peekChunk d.buf.peek d.reg = .more ∧ d.buf.peek.length < maxChunkBytes := by
  have hacc := emits_accepted hsync.acc (hsync.agrees w.csid mem) emits hsync.size
    (hsync.room ht mem (hlim ▸ afford))
  obtain ⟨hw, hdata⟩ := emits_well_formed emits
  have hsize := hsync.acc.size_le
  have hbytes := wire_bytes_le hw
  rw [hsync.size] at hsize
  have hpre : d.buf.peek <+: w.bytes :=
    List.prefix_of_prefix_length_le ⟨left, hb⟩ (List.prefix_append ..) (Nat.le_of_lt hlt)
  obtain ⟨t, hpart⟩ := hpre
  refine ⟨part_waits hacc hpart.symm ?_, by rw [maxChunkBytes]; omega⟩
  rintro rfl
  rw [List.append_nil] at hpart
  exact absurd (congrArg List.length hpart) (Nat.ne_of_lt hlt)

/-- The loop delivers the messages that are complete and waits for the rest of a chunk. -/
theorem read_follows (hn : ids.Nodup) (ht : load.table + ids.length ≤ maxChunkStreams)
    (hs : Sends size lim load ids c ps ws ms c' qs) (hctl : Controls control size ms)
    (d : DecodeState) (left : List UInt8) (fuel : Nat) (hlim : limitsOf d.reg = lim)
    (hsync : Sync d.reg load ids c ps)
    (hb : d.buf.peek ++ left = (ws.map Chunk.bytes).flatten) (hf : d.buf.peek.length < fuel) :
    ∃ d' ws' done ms', readMessages borrowed control fuel d = some d' ∧ ms = done ++ ms' ∧
      Follows size lim load ids d' ws' ms' c' qs d done ∧ Waits d' left ws' := by
  induction hs generalizing d fuel with
  | nil c ps =>
    obtain ⟨f, rfl⟩ : ∃ f, fuel = f + 1 := ⟨fuel - 1, by omega⟩
    have hnil := (List.append_eq_nil_iff.mp hb).1
    refine ⟨d, [], [], [], read_messages_waits (by rw [hnil]; rfl) f, rfl,
      ⟨⟨c, ps, hsync, .nil c ps⟩, hlim, rfl, rfl, [], by simp, rfl, by simp⟩, hb, ?_, by simp⟩
    rw [hnil]
    exact Nat.succ_pos _
  | @part c c' ps qs w p' ws ms mem afford emits next ih =>
    obtain ⟨f, rfl⟩ : ∃ f, fuel = f + 1 := ⟨fuel - 1, by omega⟩
    rw [List.map_cons, List.flatten_cons] at hb
    by_cases hlt : d.buf.peek.length < w.bytes.length
    · obtain ⟨hmore, hshort⟩ := waits_at ht hlim hsync mem afford emits hb hlt
      exact ⟨d, w :: ws, [], ms, read_messages_waits hmore f, rfl,
        ⟨⟨c, ps, hsync, .part mem afford emits next⟩, hlim, rfl, rfl, [], by simp, rfl, by simp⟩,
        hb, hshort, fun v hv => by cases hv; exact hlt⟩
    · obtain ⟨t, htail⟩ := List.prefix_of_prefix_length_le (List.prefix_append ..)
        (⟨left, hb⟩ : d.buf.peek <+: _) (Nat.le_of_not_lt hlt)
      obtain ⟨b, reg', x, hbp, hsync', hlim', -, hround⟩ :=
        @read_round _ _ _ _ _ _ _ control lim d t hn ht hlim hsync mem afford emits htail.symm
      have hpos := wire_bytes_pos (emits_well_formed emits).1
      rw [← htail, List.append_assoc, List.append_cancel_left_eq] at hb
      rw [← htail, List.length_append] at hf
      obtain ⟨d', ws', done, ms', hd', hms, hfol, hwait⟩ := ih hctl
        { d with buf := b, reg := reg' } f hlim' hsync' (by rw [← hb, ← hbp])
        (by change b.peek.length < f; rw [hbp]; omega)
      rw [hround]
      exact ⟨d', ws', done, ms', hd', hms, ⟨hfol.sync, hfol.limits, hfol.error, hfol.refused,
        hfol.delivered⟩, hwait⟩
  | @last c c' ps qs w p' m ws ms mem afford emits next ih =>
    obtain ⟨f, rfl⟩ : ∃ f, fuel = f + 1 := ⟨fuel - 1, by omega⟩
    rw [List.map_cons, List.flatten_cons] at hb
    by_cases hlt : d.buf.peek.length < w.bytes.length
    · obtain ⟨hmore, hshort⟩ := waits_at ht hlim hsync mem afford emits hb hlt
      exact ⟨d, w :: ws, [], m :: ms, read_messages_waits hmore f, rfl,
        ⟨⟨c, ps, hsync, .last mem afford emits next⟩, hlim, rfl, rfl, [], by simp, rfl, by simp⟩,
        hb, hshort, fun v hv => by cases hv; exact hlt⟩
    · obtain ⟨t, htail⟩ := List.prefix_of_prefix_length_le (List.prefix_append ..)
        (⟨left, hb⟩ : d.buf.peek <+: _) (Nat.le_of_not_lt hlt)
      obtain ⟨b, reg', x, hbp, hsync', hlim', hx, hround⟩ :=
        @read_round _ _ _ _ _ _ _ control lim d t hn ht hlim hsync mem afford emits htail.symm
      obtain ⟨hmean, hxl⟩ := hx m rfl
      obtain ⟨hsync'', hlim''⟩ := hctl.sync hsync' hmean
      have hpos := wire_bytes_pos (emits_well_formed emits).1
      rw [← htail, List.append_assoc, List.append_cancel_left_eq] at hb
      rw [← htail, List.length_append] at hf
      obtain ⟨d', ws', done, ms', hd', hms, hfol, hwait⟩ := ih hctl.tail
        { d with
          buf := b
          reg := control reg' x.msg.msgTypeId x.payload
          delivered := d.delivered ++ [x] } f (hlim''.trans hlim') hsync'' (by rw [← hb, ← hbp])
        (by change b.peek.length < f; rw [hbp]; omega)
      obtain ⟨ds, hds, hdone, hall⟩ := hfol.delivered
      rw [hround]
      refine ⟨d', ws', m :: done, ms', hd', by rw [hms, List.cons_append], ⟨hfol.sync,
        hfol.limits, hfol.error, hfol.refused, x :: ds, by rw [hds]; simp,
        by rw [List.map_cons, hdone, hmean], ?_⟩, hwait⟩
      intro y hy
      cases hy with
      | head => exact hxl
      | tail _ hy => exact hall y hy

theorem Follows.trans {d₀ d₁ d₂ : DecodeState} {ws₁ : List Chunk} {ms₁ done₁ done₂ : List Message}
    (h₁ : Follows size lim load ids d₁ ws₁ ms₁ c' qs d₀ done₁)
    (h₂ : Follows size lim load ids d₂ ws ms c' qs d₁ done₂) :
    Follows size lim load ids d₂ ws ms c' qs d₀ (done₁ ++ done₂) := by
  obtain ⟨ds₁, hd₁, hm₁, ha₁⟩ := h₁.delivered
  obtain ⟨ds₂, hd₂, hm₂, ha₂⟩ := h₂.delivered
  refine ⟨h₂.sync, h₂.limits, h₂.error.trans h₁.error, h₂.refused.trans h₁.refused, ds₁ ++ ds₂,
    by rw [hd₂, hd₁, List.append_assoc], by rw [List.map_append, hm₁, hm₂], ?_⟩
  intro x hx
  rcases List.mem_append.mp hx with hx | hx
  · exact ha₁ x hx
  · exact ha₂ x hx

/-- When nothing more is to come, a reader that waits has read everything. -/
theorem Waits.done {d d₀ : DecodeState} {done : List Message} (hw : Waits d [] ws)
    (hf : Follows size lim load ids d ws ms c' qs d₀ done) : d.buf.peek = [] ∧ ms = [] := by
  obtain ⟨c, ps, -, hs⟩ := hf.sync
  have hbytes := hw.bytes
  rw [List.append_nil] at hbytes
  cases ws with
  | nil =>
    cases hs with
    | nil => exact ⟨hbytes, rfl⟩
  | cons w ws =>
    have hlt := hw.partly w rfl
    rw [hbytes, List.map_cons, List.flatten_cons, List.length_append] at hlt
    omega

/-- What is delivered when the bytes of a run arrive in pieces. -/
theorem pieces_follow (hn : ids.Nodup) (ht : load.table + ids.length ≤ maxChunkStreams)
    {d d₀ : DecodeState} {done : List Message} (pieces : List (List UInt8))
    (he : d.error = none) (hr : d.refused = false) (hctl : Controls control size ms)
    (hf : Follows size lim load ids d ws ms c' qs d₀ done) (hw : Waits d pieces.flatten ws) :
    ∃ d', pieces.foldlM (appendPiece borrowed control) d = some d' ∧
      (d'.refused = false → d'.buf.peek = [] ∧
        ∃ ws', Follows size lim load ids d' ws' [] c' qs d₀ (done ++ ms)) ∧
      ((∀ p ∈ pieces, p.length ≤ bufferMaxSize / 2) → d'.refused = false) := by
  induction pieces generalizing d ws ms done with
  | nil =>
    obtain ⟨hused, rfl⟩ := hw.done hf
    exact ⟨d, rfl, fun _ => ⟨hused, ws, by rw [List.append_nil]; exact hf⟩, fun _ => hr⟩
  | cons piece pieces ih =>
    rw [List.foldlM_cons]
    by_cases hfit : piece = [] ∨ d.buf.peek.length + piece.length ≤ bufferMaxSize
    · obtain ⟨b, hb, happ⟩ := @append_piece_fits borrowed control d piece he hr hfit
      obtain ⟨c, ps, hsync, hs⟩ := hf.sync
      have hbytes : b.peek ++ pieces.flatten = (ws.map Chunk.bytes).flatten := by
        rw [hb, List.append_assoc, ← List.flatten_cons]
        exact hw.bytes
      obtain ⟨d₁, ws₁, done₁, ms₁, hd₁, rfl, hf₁, hw₁⟩ := read_follows hn ht hs hctl
        { d with buf := b } pieces.flatten (b.peek.length + 1) hf.limits hsync hbytes
        (Nat.lt_succ_self _)
      have hctl₁ : Controls control size ms₁ :=
        ⟨fun x hx => hctl.applies x (List.mem_append_right _ hx),
          fun m hm => hctl.bounds m (List.mem_append_right _ hm)⟩
      have hfol : Follows size lim load ids d₁ ws₁ ms₁ c' qs d₀ (done ++ done₁) :=
        hf.trans ⟨hf₁.sync, hf₁.limits, hf₁.error, hf₁.refused, hf₁.delivered⟩
      obtain ⟨d', hd', hgood, hsmall⟩ := ih (hf₁.error.trans he) (hf₁.refused.trans hr) hctl₁ hfol
        hw₁
      rw [List.append_assoc] at hgood
      rw [happ, hd₁]
      exact ⟨d', hd', hgood, fun h => hsmall (fun p hp => h p (List.mem_cons_of_mem _ hp))⟩
    · rw [@append_piece_refused borrowed control d piece he hr hfit]
      refine ⟨_, pieces_stop pieces (by simp), fun h => absurd h (by simp), fun h => ?_⟩
      have hpiece := h piece List.mem_cons_self
      have hshort := hw.short
      have hsum : maxChunkBytes + bufferMaxSize / 2 ≤ bufferMaxSize := by decide
      exact absurd (.inr (by omega)) hfit

structure Decoded (d : DecodeState) (ms : List Message) : Prop where
  error : d.error = none
  unread : d.buf.peek = []
  messages : d.delivered.map meaning = ms
  lengths : ∀ x ∈ d.delivered, x.msg.msgLength = x.payload.length

/-- However the bytes arrive, these messages are decoded, unless a piece is refused. -/
def DecodesTo (control : ChunkRegistry → UInt8 → List UInt8 → ChunkRegistry)
    (reg : ChunkRegistry) (bytes : List UInt8) (ms : List Message) : Prop :=
  ∀ pieces : List (List UInt8), pieces.flatten = bytes →
    ∃ d, decodePieces borrowed control reg pieces = some d ∧
      (d.refused = false → Decoded d ms) ∧
      ((∀ p ∈ pieces, p.length ≤ bufferMaxSize / 2) → d.refused = false)

/-- Exactly the messages of conforming peers are delivered, in the order of their completion. -/
theorem sends_decode (hn : ids.Nodup) (ht : load.table + ids.length ≤ maxChunkStreams)
    (hs : Sends size lim load ids c ps ws ms c' qs) (hctl : Controls control size ms)
    (hlim : limitsOf reg = lim) (hsync : Sync reg load ids c ps) :
    DecodesTo control reg (ws.map Chunk.bytes).flatten ms := by
  intro pieces hp
  have hf : Follows size lim load ids { buf := Buffer.new, reg } ws ms c' qs
      { buf := Buffer.new, reg } [] :=
    ⟨⟨c, ps, hsync, hs⟩, hlim, rfl, rfl, [], rfl, rfl, by simp⟩
  have hw : Waits { buf := Buffer.new, reg } pieces.flatten ws := by
    refine ⟨by rw [Buffer.peek_new]; exact hp, by rw [Buffer.peek_new]; decide, ?_⟩
    intro w hw
    rw [Buffer.peek_new]
    cases hs with
    | nil => cases hw
    | part _ _ emits _ =>
      cases hw
      exact wire_bytes_pos (emits_well_formed emits).1
    | last _ _ emits _ =>
      cases hw
      exact wire_bytes_pos (emits_well_formed emits).1
  obtain ⟨d, hd, hgood, hsmall⟩ := pieces_follow hn ht pieces rfl rfl hctl hf hw
  refine ⟨d, hd, fun hr => ?_, hsmall⟩
  obtain ⟨hused, ws', hfol⟩ := hgood hr
  obtain ⟨ds, hds, hms, hall⟩ := hfol.delivered
  have hdel : d.delivered = ds := hds
  exact ⟨hfol.error, hused, hdel ▸ hms, hdel ▸ hall⟩

end LibRtmp.Proofs
