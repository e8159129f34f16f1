import Mathlib.Logic.Relation
import LibRtmp.Message.Decode
import LibRtmp.Proofs.ReadChunk

namespace LibRtmp.Proofs

open Relation

variable {b : Buffer} (fuel : Nat) (d : DecodeState)
variable {p t : List UInt8} {reg : ChunkRegistry} {h : ChunkHead}

theorem basic_header_append {r : Nat × Nat × Nat} (hb : readBasicHeader p = some r)
    (t : List UInt8) : readBasicHeader (p ++ t) = some r := by
  cases p with
  | nil => cases hb
  | cons first rest =>
    simp only [readBasicHeader, List.cons_append] at hb ⊢
    generalize first.toNat % 64 = low at hb ⊢
    rcases low with _ | _ | n
    · cases rest with
      | nil => cases hb
      | cons b rest => exact hb
    · rcases rest with _ | ⟨b, _ | ⟨c, rest⟩⟩
      · cases hb
      · cases hb
      · exact hb
    · exact hb

theorem field24_append {off : Nat} (ho : off + 3 ≤ p.length) (t : List UInt8) :
    field24 (p ++ t) off = field24 p off := by
  rw [field24, field24, List.drop_append_of_le_length (by omega),
    List.take_append_of_le_length (by rw [List.length_drop]; omega)]

theorem field_size_ge {fmt n : Nat} (hf : msgFieldSize fmt = some n) :
    (fmt ≤ 2 → 3 ≤ n) ∧ (fmt ≤ 1 → 7 ≤ n) := by
  unfold msgFieldSize at hf
  split at hf <;> cases hf <;> omega

/-- Phase 1 changes its mind only while it still waits for bytes. -/
theorem check_chunk_more {fmt csid headerSize fieldSize tsRaw lenRaw n m : Nat}
    (hm : checkChunk reg fmt csid headerSize fieldSize tsRaw lenRaw n ≠ .more) (hle : n ≤ m) :
    checkChunk reg fmt csid headerSize fieldSize tsRaw lenRaw m =
      checkChunk reg fmt csid headerSize fieldSize tsRaw lenRaw n := by
  unfold checkChunk at hm ⊢
  dsimp only at hm ⊢
  split
  · rfl
  rename_i h1
  rw [if_neg h1] at hm
  split
  · rfl
  rename_i h2
  rw [if_neg h2] at hm
  by_cases hn : n < headerSize + fieldSize + extTsSize (extTsForAvail reg fmt csid tsRaw)
  · rw [if_pos hn] at hm
    exact absurd rfl hm
  rw [if_neg hn] at hm ⊢
  rw [if_neg (by omega)]
  split
  · rfl
  rename_i h3
  rw [if_neg h3] at hm
  split
  · rfl
  rename_i h4
  rw [if_neg h4] at hm
  split
  · rfl
  rename_i h5
  rw [if_neg h5] at hm
  split
  · rfl
  rename_i h6
  rw [if_neg h6] at hm
  split at hm
  · exact absurd rfl hm
  · rename_i h7
    rw [if_neg h7, if_neg (by omega)]

theorem basic_header_size {fmt csid headerSize : Nat}
    (hb : readBasicHeader p = some (fmt, csid, headerSize)) :
    0 < headerSize ∧ headerSize ≤ p.length := by
  cases p with
  | nil => cases hb
  | cons first rest =>
    simp only [readBasicHeader] at hb
    generalize first.toNat % 64 = low at hb
    rcases low with _ | _ | n
    · cases rest with
      | nil => cases hb
      | cons b rest =>
        cases hb
        simp
    · rcases rest with _ | ⟨b, _ | ⟨c, rest⟩⟩
      · cases hb
      · cases hb
      · cases hb
        simp
    · cases hb
      simp

/-- Once phase 1 has decided on a byte string, more bytes leave the decision as it is. -/
theorem peek_chunk_append (hp : peekChunk p reg ≠ .more) (t : List UInt8) :
    peekChunk (p ++ t) reg = peekChunk p reg := by
  unfold peekChunk at hp ⊢
  cases hb : readBasicHeader p with
  | none =>
    rw [hb] at hp
    exact absurd rfl hp
  | some r =>
    obtain ⟨fmt, csid, headerSize⟩ := r
    rw [hb] at hp
    rw [basic_header_append hb]
    dsimp only at hp ⊢
    cases hf : msgFieldSize fmt with
    | none => rfl
    | some fieldSize =>
      rw [hf] at hp
      dsimp only at hp ⊢
      by_cases hl : p.length < headerSize + fieldSize
      · rw [if_pos hl] at hp
        exact absurd rfl hp
      · rw [if_neg hl] at hp ⊢
        have hts : peekTimestamp (p ++ t) fmt headerSize = peekTimestamp p fmt headerSize := by
          unfold peekTimestamp
          split
          · apply field24_append
            have := field_size_ge hf
            omega
          · rfl
        have hlen : peekLength (p ++ t) fmt headerSize = peekLength p fmt headerSize := by
          unfold peekLength
          split
          · apply field24_append
            have := field_size_ge hf
            omega
          · rfl
        rw [if_neg (by rw [List.length_append]; omega), hts, hlen]
        exact check_chunk_more hp (by rw [List.length_append]; omega)

/-- Two results that agree in everything but unread bytes at the end of the buffer. -/
structure Extends {α : Type} (t : List UInt8) (r r' : ReadState × Except ErrorCode α) : Prop where
  reg : r'.1.reg = r.1.reg
  msg : r'.1.msg = r.1.msg
  payload : r'.1.payload = r.1.payload
  result : r'.2 = r.2
  bytes : r'.1.buf.peek = r.1.buf.peek ++ t

theorem finish_chunk_buf (st : ReadState) (c : Buffer) (idx : Nat) (h : ChunkHead) :
    finishChunk { st with buf := c } idx h =
      ({ (finishChunk st idx h).1 with buf := c }, (finishChunk st idx h).2) := by
  unfold finishChunk
  dsimp only
  split <;> rfl

theorem finish_chunk_keeps (st : ReadState) (idx : Nat) (h : ChunkHead) :
    (finishChunk st idx h).1.buf = st.buf := by
  unfold finishChunk
  dsimp only
  split <;> rfl

/-- The payload step takes its bytes from the front. -/
theorem store_chunk_append {c c' : Buffer} {n idx : Nat} (msg : ChunkMessage)
    (hn : min ((reg.stream idx).type0MsgLength - (reg.stream idx).reassemblyBytesRead)
      (reg.stream idx).chunkSize = n)
    (hav : n ≤ c.peek.length) (hc : c'.peek = c.peek ++ t) :
    Extends t (storeChunk ⟨c, reg, msg, []⟩ idx h) (storeChunk ⟨c', reg, msg, []⟩ idx h) := by
  obtain ⟨b, hb, hbp⟩ := c.read_ok hav
  obtain ⟨b', hb', hbp'⟩ := c'.read_ok (by rw [hc, List.length_append]; omega : n ≤ _)
  rw [hc, List.take_append_of_le_length hav] at hb'
  rw [hc, List.drop_append_of_le_length hav, ← hbp] at hbp'
  unfold storeChunk
  dsimp only
  rw [hn, hb, hb']
  dsimp only
  split
  · exact ⟨rfl, rfl, rfl, rfl, hbp'⟩
  · rw [finish_chunk_buf ⟨c, _, msg, []⟩ b, finish_chunk_buf ⟨c, _, msg, []⟩ b']
    exact ⟨rfl, rfl, rfl, rfl, hbp'⟩

theorem Ready.fields_append (hr : Ready p reg h) (t : List UInt8) :
    h.fields (p ++ t) = h.fields p := by
  have hav := hr.avail
  rw [ChunkHead.totalHeader] at hav
  rw [ChunkHead.fields, ChunkHead.fields, List.drop_append_of_le_length (by omega),
    List.take_append_of_le_length (by rw [List.length_drop]; omega)]

theorem Ready.timestamp_append (hr : Ready p reg h) (t : List UInt8) :
    h.finalTimestamp (p ++ t) = h.finalTimestamp p := by
  have hav := hr.avail
  rw [ChunkHead.totalHeader] at hav
  rw [ChunkHead.finalTimestamp, ChunkHead.finalTimestamp, hr.fields_append]
  cases hx : h.extTs with
  | false => rfl
  | true =>
    rw [hx, extTsSize] at hav
    rw [List.drop_append_of_le_length (by omega),
      List.take_append_of_le_length (by rw [List.length_drop]; omega)]

theorem landed_stream {reg1 : ChunkRegistry} {idx : Nat} (hl : reg.Landing h.csid reg1 idx)
    (p : List UInt8) :
    ((discardPartial reg1 idx h.fmt).modifyStream idx (fun s =>
      stampHeader s h.fmt (h.fields p) (h.finalTimestamp p) h.extTs)).stream idx =
      (reg.opened h.csid).headed h p := by
  rw [landed_header hl, ChunkRegistry.put_stream _ _ _ hl.lt]

/-- Bytes behind a chunk that is decided do not matter to `chunk_read`. -/
theorem chunk_read_append {b b' : Buffer} (msg : ChunkMessage)
    (hp : peekChunk b.peek reg ≠ .more) (hb : b'.peek = b.peek ++ t) :
    Extends t (chunkRead b reg msg) (chunkRead b' reg msg) := by
  have hp' : peekChunk b'.peek reg = peekChunk b.peek reg := by
    rw [hb]
    exact peek_chunk_append hp t
  cases hd : peekChunk b.peek reg with
  | more => exact absurd hd hp
  | fail e =>
    rw [hd] at hp'
    rw [chunkRead, chunkRead, hd, hp']
    exact ⟨rfl, rfl, rfl, rfl, hb⟩
  | ready h =>
    rw [hd] at hp'
    have hr := ready_of_peek hd
    have hr' := ready_of_peek hp'
    obtain ⟨reg1, idx, hland⟩ := ChunkRegistry.landing_of_room hr.room
    obtain ⟨c, hc, hread⟩ := chunk_read_store b msg hr hland
    obtain ⟨c', hc', hread'⟩ := chunk_read_store b' msg hr' hland
    have hav := hr.avail
    rw [hread, hread', hb, hr.fields_append, hr.timestamp_append]
    apply store_chunk_append (n := h.toRead) msg
    · rw [landed_stream hland]
      exact hr.late_to_read
    · rw [hc, List.length_drop]
      omega
    · rw [hc', hb, List.drop_append_of_le_length (by omega), hc]

theorem chunk_read_owned_append {b b' : Buffer} (msg : ChunkMessage)
    (hp : peekChunk b.peek reg ≠ .more) (hb : b'.peek = b.peek ++ t) :
    Extends t (chunkReadOwned b reg msg) (chunkReadOwned b' reg msg) := by
  obtain ⟨hreg, hmsg, hpay, hres, hbytes⟩ := chunk_read_append msg hp hb
  unfold chunkReadOwned
  generalize chunkRead b reg msg = r at hreg hmsg hpay hres hbytes ⊢
  generalize chunkRead b' reg msg = r' at hreg hmsg hpay hres hbytes ⊢
  obtain ⟨⟨c, g, m, y⟩, rc⟩ := r
  obtain ⟨⟨c', g', m', y'⟩, rc'⟩ := r'
  dsimp only at hreg hmsg hpay hres hbytes
  subst hreg hmsg hpay hres
  cases rc' with
  | error e => exact ⟨rfl, rfl, rfl, rfl, hbytes⟩
  | ok n =>
    dsimp only
    split
    · split <;> exact ⟨rfl, rfl, rfl, rfl, hbytes⟩
    · exact ⟨rfl, rfl, rfl, rfl, hbytes⟩

def nextState (d : DecodeState) : DecodeState :=
  let (st, rc) := chunkReadOwned d.buf d.reg {}
  match rc with
  | .error e => { d with buf := st.buf, reg := st.reg, error := some e }
  | .ok (rc, payload) =>
    if rc = 1 ∧ st.msg.isComplete = true then
      { d with
        buf := st.buf
        reg := applyControl st.reg st.msg.msgTypeId payload
        delivered := d.delivered ++ [⟨st.msg, payload⟩] }
    else { d with buf := st.buf, reg := st.reg }

/-- A call that waits for more bytes changes nothing. -/
theorem chunk_read_owned_more (msg : ChunkMessage) (hp : peekChunk b.peek reg = .more) :
    chunkReadOwned b reg msg = (⟨b, reg, msg, []⟩, .ok (0, [])) := by
  simp [chunkReadOwned, chunkRead, hp]

theorem chunk_read_owned_fail {e : ErrorCode} (msg : ChunkMessage)
    (hp : peekChunk b.peek reg = .fail e) :
    chunkReadOwned b reg msg = (⟨b, reg, msg, []⟩, .error e) := by
  simp [chunkReadOwned, chunkRead, hp]

theorem chunk_read_owned_buf (b : Buffer) (reg : ChunkRegistry) (msg : ChunkMessage) :
    (chunkReadOwned b reg msg).1.buf = (chunkRead b reg msg).1.buf := by
  unfold chunkReadOwned
  dsimp only
  split
  · rfl
  · split
    · split <;> rfl
    · rfl

/-- A chunk that is read takes at least its basic header off the buffer. -/
theorem chunk_read_owned_consumes (msg : ChunkMessage)
    (hp : peekChunk b.peek reg = .ready h) :
    (chunkReadOwned b reg msg).1.buf.peek.length < b.peek.length := by
  have hr := ready_of_peek hp
  have hsize := basic_header_size hr.basic
  have hav := hr.avail
  rw [ChunkHead.totalHeader] at hav
  obtain ⟨reg1, idx, hland⟩ := ChunkRegistry.landing_of_room hr.room
  obtain ⟨c, hc, hread⟩ := chunk_read_store b msg hr hland
  have hlen : c.peek.length < b.peek.length := by
    rw [hc, List.length_drop, ChunkHead.totalHeader]
    omega
  rw [chunk_read_owned_buf, hread]
  unfold storeChunk
  dsimp only
  rw [landed_stream hland, hr.late_to_read]
  have hle : (c.read h.toRead).1.peek.length ≤ c.peek.length := by
    rw [Buffer.peek_read]
    split
    · rw [List.length_drop]
      omega
    · exact Nat.le_refl _
  split
  · exact Nat.lt_of_le_of_lt hle hlen
  · split
    · exact Nat.lt_of_le_of_lt hle hlen
    · rw [finish_chunk_keeps]
      exact Nat.lt_of_le_of_lt hle hlen

/-- The loop stops on a state that waits, and otherwise goes on from the next one. -/
theorem read_messages_more {d : DecodeState} (hp : peekChunk d.buf.peek d.reg = .more) :
    readMessages owned applyControl (fuel + 1) d = some d := by
  simp [readMessages, owned, chunk_read_owned_more _ hp]

theorem read_messages_step {d : DecodeState} (he : d.error = none)
    (hp : peekChunk d.buf.peek d.reg ≠ .more) :
    readMessages owned applyControl (fuel + 1) d =
      if (nextState d).error = none then readMessages owned applyControl fuel (nextState d)
      else some (nextState d) := by
  cases hd : peekChunk d.buf.peek d.reg with
  | more => exact absurd hd hp
  | fail e => simp [readMessages, owned, nextState, chunk_read_owned_fail _ hd]
  | ready h =>
    have hlt := chunk_read_owned_consumes {} hd
    rw [← Buffer.available_eq, ← Buffer.available_eq] at hlt
    rw [readMessages, nextState, owned]
    generalize chunkReadOwned d.buf d.reg {} = r at hlt ⊢
    obtain ⟨st, rc⟩ := r
    dsimp only at hlt ⊢
    cases rc with
    | error e => simp
    | ok v =>
      obtain ⟨rc, payload⟩ := v
      dsimp only
      by_cases h1 : rc = 1
      · by_cases hm : st.msg.isComplete = true
        · simp [h1, hm, he]
        · simp [h1, hm, he]
      · simp [h1, Nat.not_le_of_lt hlt, he]

/-- A decoding in terms of the bytes still to come, however many of them are buffered. -/
structure Decoding where
  bytes : List UInt8
  reg : ChunkRegistry
  delivered : List Delivery
  error : Option ErrorCode

def view (d : DecodeState) (t : List UInt8) : Decoding :=
  ⟨d.buf.peek ++ t, d.reg, d.delivered, d.error⟩

inductive Step : Decoding → Decoding → Prop where
  | call (d : DecodeState) (t : List UInt8) (he : d.error = none)
      (hp : peekChunk d.buf.peek d.reg ≠ .more) : Step (view d t) (view (nextState d) t)

theorem next_state_append {d e : DecodeState} {u : List UInt8} (t : List UInt8)
    (hp : peekChunk d.buf.peek d.reg ≠ .more) (hb : e.buf.peek = d.buf.peek ++ u)
    (hreg : e.reg = d.reg) (hdel : e.delivered = d.delivered) (herr : e.error = d.error) :
    view (nextState e) t = view (nextState d) (u ++ t) := by
  have hx := chunk_read_owned_append {} hp hb
  unfold nextState
  rw [hreg]
  generalize chunkReadOwned d.buf d.reg {} = r at hx ⊢
  generalize chunkReadOwned e.buf d.reg {} = r' at hx ⊢
  obtain ⟨⟨c, g, m, y⟩, rc⟩ := r
  obtain ⟨⟨c', g', m', y'⟩, rc'⟩ := r'
  obtain ⟨h1, h2, h3, h4, h5⟩ := hx
  dsimp only at h1 h2 h3 h4 h5
  subst h1 h2 h3 h4
  have hbytes : c'.peek ++ t = c.peek ++ (u ++ t) := by rw [h5, List.append_assoc]
  cases rc' with
  | error e => simp [view, hbytes, hdel]
  | ok v =>
    dsimp only
    split <;> simp [view, hbytes, hdel, herr]

/-- The bytes alone determine the next call, not how much of them is buffered. -/
theorem step_right_unique : Relator.RightUnique Step := by
  intro x y z hy hz
  cases hy with
  | call d t he hp =>
    generalize hx : view d t = x at hz
    cases hz with
    | call e u he' hp' =>
      simp only [view, Decoding.mk.injEq] at hx
      obtain ⟨hbytes, hreg, hdel, herr⟩ := hx
      rcases List.append_eq_append_iff.mp hbytes with ⟨w, hd, ht⟩ | ⟨w, hd, ht⟩
      · rw [next_state_append u hp hd hreg.symm hdel.symm herr.symm, ht]
      · rw [next_state_append t hp' hd hreg hdel herr, ht]

theorem next_state_length (hp : peekChunk d.buf.peek d.reg ≠ .more) :
    (nextState d).buf.peek.length ≤ d.buf.peek.length ∧
      ((nextState d).error = none → (nextState d).buf.peek.length < d.buf.peek.length) := by
  have hbuf : (nextState d).buf = (chunkReadOwned d.buf d.reg {}).1.buf := by
    unfold nextState
    dsimp only
    split
    · rfl
    · split <;> rfl
  rw [hbuf]
  cases hd : peekChunk d.buf.peek d.reg with
  | more => exact absurd hd hp
  | fail e =>
    refine ⟨by rw [chunk_read_owned_fail _ hd], fun hn => ?_⟩
    simp [nextState, chunk_read_owned_fail _ hd] at hn
  | ready h =>
    have hlt := chunk_read_owned_consumes {} hd
    exact ⟨Nat.le_of_lt hlt, fun _ => hlt⟩

theorem next_state_refused : (nextState d).refused = d.refused := by
  unfold nextState
  dsimp only
  split
  · rfl
  · split <;> rfl

structure Drained (d d' : DecodeState) : Prop where
  steps : ∀ t, ReflTransGen Step (view d t) (view d' t)
  waits : d'.error = none → peekChunk d'.buf.peek d'.reg = .more
  refused : d'.refused = d.refused
  length : d'.buf.peek.length ≤ d.buf.peek.length

theorem read_messages_drained (he : d.error = none) (hf : d.buf.peek.length < fuel) :
    ∃ d', readMessages owned applyControl fuel d = some d' ∧ Drained d d' := by
  induction fuel generalizing d with
  | zero => exact absurd hf (Nat.not_lt_zero _)
  | succ fuel ih =>
    by_cases hp : peekChunk d.buf.peek d.reg = .more
    · exact ⟨d, read_messages_more fuel hp,
        ⟨fun _ => .refl, fun _ => hp, rfl, Nat.le_refl _⟩⟩
    · obtain ⟨hle, hlt⟩ := next_state_length d hp
      rw [read_messages_step fuel he hp]
      split
      · rename_i hn
        obtain ⟨d', hd', hdr⟩ := ih (nextState d) hn (by have := hlt hn; omega)
        refine ⟨d', hd', ?_, hdr.waits, hdr.refused.trans (next_state_refused d),
          Nat.le_trans hdr.length hle⟩
        intro t
        exact .head (.call d t he hp) (hdr.steps t)
      · rename_i hn
        refine ⟨_, rfl, ?_, fun hz => absurd hz hn, next_state_refused d, hle⟩
        intro t
        exact .single (.call d t he hp)

/-- An append was refused, or the calls that the bytes ask for have been made. -/
structure Appended (d : DecodeState) (bytes : List UInt8) (d' : DecodeState) : Prop where
  steps : d'.refused = false → ∃ rest, ReflTransGen Step (view d bytes) (view d' rest) ∧
    (d'.error = none → rest = [] ∧ peekChunk d'.buf.peek d'.reg = .more)
  accepted : d.buf.peek.length + bytes.length ≤ bufferMaxSize → d'.refused = false

section Pieces

variable {read : ChunkReader} {control : ChunkRegistry → UInt8 → List UInt8 → ChunkRegistry}
  {d : DecodeState} {piece : List UInt8}

theorem append_piece_fits (he : d.error = none) (hr : d.refused = false)
    (hfit : piece = [] ∨ d.buf.peek.length + piece.length ≤ bufferMaxSize) :
    ∃ b, b.peek = d.buf.peek ++ piece ∧
      appendPiece read control d piece =
        readMessages read control (b.peek.length + 1) { d with buf := b } := by
  have hres := d.buf.write_result piece
  have hpeek := d.buf.peek_write piece
  rw [if_pos hfit] at hres
  refine ⟨(d.buf.write piece).1, ?_, ?_⟩
  · rw [hpeek]
    rcases hfit with rfl | hle
    · simp
    · exact if_pos hle
  · rw [appendPiece, he, hr, ← Buffer.available_eq]
    generalize d.buf.write piece = w at hres
    obtain ⟨b, rc⟩ := w
    dsimp only at hres
    subst hres
    simp

theorem append_piece_refused (he : d.error = none) (hr : d.refused = false)
    (hfit : ¬(piece = [] ∨ d.buf.peek.length + piece.length ≤ bufferMaxSize)) :
    appendPiece read control d piece =
      some { d with buf := (d.buf.write piece).1, refused := true } := by
  have hres := d.buf.write_result piece
  rw [if_neg hfit] at hres
  rw [appendPiece, he, hr]
  generalize d.buf.write piece = w at hres
  obtain ⟨b, rc⟩ := w
  dsimp only at hres
  subst hres
  simp

theorem pieces_stop (pieces : List (List UInt8)) (hs : (d.error.isSome || d.refused) = true) :
    pieces.foldlM (appendPiece read control) d = some d := by
  induction pieces with
  | nil => rfl
  | cons piece pieces ih =>
    rw [List.foldlM_cons, appendPiece, if_pos hs]
    exact ih

end Pieces

/-- One piece, taken or refused. -/
theorem append_piece_cases (piece : List UInt8) (he : d.error = none)
    (hr : d.refused = false) :
    ∃ d', appendPiece owned applyControl d piece = some d' ∧
      (d'.refused = false → (∀ t, ReflTransGen Step (view d (piece ++ t)) (view d' t)) ∧
        (d'.error = none → peekChunk d'.buf.peek d'.reg = .more)) ∧
      (d.buf.peek.length + piece.length ≤ bufferMaxSize → d'.refused = false ∧
        d'.buf.peek.length ≤ d.buf.peek.length + piece.length) := by
  by_cases hfit : piece = [] ∨ d.buf.peek.length + piece.length ≤ bufferMaxSize
  · obtain ⟨b, hb, happ⟩ := append_piece_fits he hr hfit
    obtain ⟨d', hd', hdr⟩ := read_messages_drained (b.peek.length + 1) { d with buf := b } he
      (Nat.lt_succ_self _)
    refine ⟨d', happ.trans hd', fun _ => ⟨fun t => ?_, hdr.waits⟩, fun _ =>
      ⟨hdr.refused.trans hr, ?_⟩⟩
    · have hv : view { d with buf := b } t = view d (piece ++ t) := by
        simp [view, hb]
      rw [← hv]
      exact hdr.steps t
    · have hlen := hdr.length
      rwa [hb, List.length_append] at hlen
  · refine ⟨_, append_piece_refused he hr hfit, ?_, ?_⟩
    · intro hf
      cases hf
    · intro hle
      exact absurd (.inr hle) hfit

/-- Piece by piece, the loop makes the calls of the whole string. -/
theorem pieces_appended (pieces : List (List UInt8)) (d : DecodeState) (he : d.error = none)
    (hr : d.refused = false) (hw : peekChunk d.buf.peek d.reg = .more) :
    ∃ d', pieces.foldlM (appendPiece owned applyControl) d = some d' ∧
      Appended d pieces.flatten d' := by
  induction pieces generalizing d with
  | nil => exact ⟨d, rfl, fun _ => ⟨[], .refl, fun _ => ⟨rfl, hw⟩⟩, fun _ => hr⟩
  | cons piece pieces ih =>
    obtain ⟨d1, hd1, hsteps, hfit⟩ := append_piece_cases d piece he hr
    rw [List.foldlM_cons, hd1]
    simp only [Option.bind_eq_bind, Option.bind_some, List.flatten_cons]
    cases hr1 : d1.refused with
    | true =>
      refine ⟨d1, pieces_stop pieces (by simp [hr1]), fun hf => ?_, fun hle => ?_⟩
      · rw [hr1] at hf
        cases hf
      · have hacc := (hfit (by rw [List.length_append] at hle; omega)).1
        exact hacc
    | false =>
      obtain ⟨hst, hwait⟩ := hsteps hr1
      cases he1 : d1.error with
      | some e =>
        refine ⟨d1, pieces_stop pieces (by simp [he1]), fun _ => ⟨pieces.flatten, hst _, ?_⟩,
          fun _ => hr1⟩
        intro hn
        rw [he1] at hn
        cases hn
      | none =>
        obtain ⟨d', hd', happ⟩ := ih d1 he1 hr1 (hwait he1)
        refine ⟨d', hd', fun hf => ?_, fun hle => ?_⟩
        · obtain ⟨rest, hrest, hend⟩ := happ.steps hf
          exact ⟨rest, (hst _).trans hrest, hend⟩
        · rw [List.length_append] at hle
          have hlen := (hfit (by omega)).2
          exact happ.accepted (by omega)

/-- A decoding that has failed, or that waits with every byte buffered, goes no further. -/
theorem stuck {d : DecodeState} {rest : List UInt8}
    (hend : d.error = none → rest = [] ∧ peekChunk d.buf.peek d.reg = .more) (y : Decoding) :
    ¬Step (view d rest) y := by
  intro hs
  generalize hx : view d rest = x at hs
  cases hs with
  | call e t he hp =>
    simp only [view, Decoding.mk.injEq] at hx
    obtain ⟨hbytes, hreg, -, herr⟩ := hx
    obtain ⟨rfl, hmore⟩ := hend (herr.trans he)
    rw [List.append_nil] at hbytes
    rw [hbytes, hreg, peek_chunk_append hp] at hmore
    exact hp hmore

theorem steps_end {x y z : Decoding} (hy : ReflTransGen Step x y) (hz : ReflTransGen Step x z)
    (ey : ∀ w, ¬Step y w) (ez : ∀ w, ¬Step z w) : y = z := by
  rcases hy.total_of_right_unique step_right_unique hz with h | h
  · cases ReflTransGen.cases_head h with
    | inl he => exact he
    | inr he =>
      obtain ⟨w, hw, -⟩ := he
      exact absurd hw (ey w)
  · cases ReflTransGen.cases_head h with
    | inl he => exact he.symm
    | inr he =>
      obtain ⟨w, hw, -⟩ := he
      exact absurd hw (ez w)

theorem steps_delivered {x y : Decoding} (hs : ReflTransGen Step x y) :
    x.delivered <+: y.delivered := by
  induction hs with
  | refl => exact List.prefix_refl _
  | tail _ hstep ih =>
    apply ih.trans
    cases hstep with
    | call d t _ _ =>
      simp only [view, nextState]
      split
      · exact List.prefix_refl _
      · split
        · exact List.prefix_append _ _
        · exact List.prefix_refl _

/-- Bytes that arrive later do not undo the calls made so far. -/
theorem steps_append {x y : Decoding} (hs : ReflTransGen Step x y) (u : List UInt8) :
    ReflTransGen Step { x with bytes := x.bytes ++ u } { y with bytes := y.bytes ++ u } := by
  induction hs with
  | refl => exact .refl
  | tail _ hstep ih =>
    apply ih.tail
    cases hstep with
    | call d t he hp =>
      have hv : ∀ e : DecodeState, { view e t with bytes := (view e t).bytes ++ u } =
          view e (t ++ u) := by
        intro e
        simp [view]
      rw [hv, hv]
      exact .call d (t ++ u) he hp

theorem decode_appended (reg : ChunkRegistry) (pieces : List (List UInt8)) :
    ∃ d, decodePieces owned applyControl reg pieces = some d ∧
      Appended { buf := Buffer.new, reg := reg } pieces.flatten d := by
  apply pieces_appended pieces _ rfl rfl
  rw [Buffer.peek_new]
  rfl

/-- How the network cuts a byte string does not show in what is decoded, as long as the
receive buffer takes every piece; it does when the string is no longer than its cap. What a
first part of the string delivers stays delivered, whatever error comes later. -/
theorem decoding_ignores_splits (reg : ChunkRegistry) (ps qs : List (List UInt8))
    (hcut : ps.flatten = qs.flatten) :
    ∃ d e, decodePieces owned applyControl reg ps = some d ∧
      decodePieces owned applyControl reg qs = some e ∧
      (d.refused = false → e.refused = false →
        d.delivered = e.delivered ∧ d.reg = e.reg ∧ d.error = e.error) ∧
      (ps.flatten.length ≤ bufferMaxSize → d.refused = false ∧ e.refused = false) ∧
      (∀ first rest a, ps.flatten = first ++ rest →
        decodePieces owned applyControl reg [first] = some a →
        a.refused = false → d.refused = false → a.delivered <+: d.delivered) := by
  obtain ⟨d, hd, happ⟩ := decode_appended reg ps
  obtain ⟨e, he, hape⟩ := decode_appended reg qs
  refine ⟨d, e, hd, he, ?_, ?_, ?_⟩
  · intro hdr her
    obtain ⟨r, hr, hend⟩ := happ.steps hdr
    obtain ⟨s, hs, hens⟩ := hape.steps her
    rw [← hcut] at hs
    have heq := steps_end hr hs (stuck hend) (stuck hens)
    simp only [view, Decoding.mk.injEq] at heq
    exact ⟨heq.2.2.1, heq.2.1, heq.2.2.2⟩
  · intro hle
    refine ⟨happ.accepted ?_, hape.accepted ?_⟩
    · simpa using hle
    · simpa [← hcut] using hle
  · intro first rest a hfirst ha har hdr
    obtain ⟨a', ha', hapa⟩ := decode_appended reg [first]
    obtain rfl : a = a' := Option.some.inj (ha.symm.trans ha')
    obtain ⟨r, hr, hend⟩ := happ.steps hdr
    obtain ⟨s, hs, -⟩ := hapa.steps har
    have hlong := steps_append hs rest
    simp only [view, List.flatten_cons, List.flatten_nil, List.append_nil] at hlong
    rw [hfirst] at hr
    rcases hr.total_of_right_unique step_right_unique hlong with hdone | hmore
    · cases ReflTransGen.cases_head hdone with
      | inl heq =>
        have hdel : d.delivered = a.delivered := congrArg Decoding.delivered heq
        exact hdel ▸ List.prefix_refl _
      | inr hstep =>
        obtain ⟨w, hw, -⟩ := hstep
        exact absurd hw (stuck hend w)
    · exact steps_delivered hmore

/-- A message cut inside its header decodes as it does in one piece. -/
theorem split_header_decodes_alike :
    ∃ d e, decodePieces owned applyControl .new [[3, 0, 0, 0, 0], [0, 1, 20, 0, 0, 0, 0, 7]] = some d ∧
      decodePieces owned applyControl .new [[3, 0, 0, 0, 0, 0, 1, 20, 0, 0, 0, 0, 7]] = some e ∧
      d.delivered = e.delivered ∧ d.reg = e.reg ∧ d.error = e.error := by
  obtain ⟨d, e, hd, he, hsame, hfit, -⟩ := decoding_ignores_splits .new
    [[3, 0, 0, 0, 0], [0, 1, 20, 0, 0, 0, 0, 7]] [[3, 0, 0, 0, 0, 0, 1, 20, 0, 0, 0, 0, 7]] rfl
  obtain ⟨hdr, her⟩ := hfit (by decide)
  exact ⟨d, e, hd, he, hsame hdr her⟩

theorem decode_refused (reg : ChunkRegistry) {piece : List UInt8}
    (hlong : bufferMaxSize < piece.length) :
    decodePieces owned applyControl reg [piece] =
      some { buf := (Buffer.new.write piece).1, reg := reg, refused := true } := by
  have hfit : ¬(piece = [] ∨ (Buffer.new).peek.length + piece.length ≤ bufferMaxSize) := by
    rintro (rfl | hle)
    · exact Nat.not_lt_zero _ hlong
    · omega
  rw [decodePieces, List.foldlM_cons,
    @append_piece_refused _ _ { buf := Buffer.new, reg := reg } piece rfl rfl hfit]
  rfl

/-- One byte more than the cap: read byte by byte the string fails on its first chunk, but
the buffer refuses it as a whole and nothing is read. -/
theorem long_string_refused_whole :
    ∃ d e, decodePieces owned applyControl .new [[0xC3], List.replicate bufferMaxSize 0xC3] =
        some d ∧
      decodePieces owned applyControl .new [List.replicate (bufferMaxSize + 1) 0xC3] = some e ∧
      [[0xC3], List.replicate bufferMaxSize 0xC3].flatten =
        [List.replicate (bufferMaxSize + 1) (0xC3 : UInt8)].flatten ∧
      d.error = some .chunk ∧ e.error = none := by
  obtain ⟨b, hb, happ⟩ := @append_piece_fits owned applyControl
    { buf := Buffer.new, reg := .new } [0xC3] rfl rfl (.inr (by rw [Buffer.peek_new]; decide))
  have hp : peekChunk b.peek .new = .fail .chunk := by
    rw [hb, Buffer.peek_new]
    rfl
  have hread : readMessages owned applyControl (b.peek.length + 1) { buf := b, reg := .new } =
      some { buf := b, reg := .new, error := some .chunk } := by
    rw [readMessages, owned, chunk_read_owned_fail _ hp]
  refine ⟨{ buf := b, reg := .new, error := some .chunk },
    { buf := (Buffer.new.write (List.replicate (bufferMaxSize + 1) 0xC3)).1, reg := .new
      refused := true }, ?_, ?_, ?_, rfl, rfl⟩
  · rw [decodePieces, List.foldlM_cons, happ, hread]
    exact pieces_stop _ rfl
  · apply decode_refused
    rw [List.length_replicate]
    exact Nat.lt_succ_self _
  · simp [List.replicate_succ]

end LibRtmp.Proofs
