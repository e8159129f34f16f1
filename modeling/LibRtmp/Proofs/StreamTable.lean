import Mathlib.Data.List.Perm.Subperm
import LibRtmp.Message.Decode
import LibRtmp.Proofs.Accounting

namespace LibRtmp.Proofs

variable {reg reg' : ChunkRegistry}

def Known (reg : ChunkRegistry) (csid : Nat) : Prop := (reg.csidIndex csid).isSome = true

/-- The table has a place for each known chunk stream. -/
theorem known_length_le (hreg : Accounted reg) {ids : List Nat} (hn : ids.Nodup)
    (hk : ∀ id ∈ ids, Known reg id) : ids.length ≤ reg.streams.length := by
  have hinj : ∀ a ∈ ids, ∀ b ∈ ids,
      (reg.csidIndex a).getD 0 = (reg.csidIndex b).getD 0 → a = b := by
    intro a ha b hb heq
    obtain ⟨i, hi⟩ := Option.isSome_iff_exists.mp (hk a ha)
    obtain ⟨j, hj⟩ := Option.isSome_iff_exists.mp (hk b hb)
    rw [hi, hj] at heq
    obtain rfl : i = j := heq
    obtain ⟨s, hs, rfl⟩ := (hreg.index a i).mp hi
    obtain ⟨t, ht, rfl⟩ := (hreg.index b i).mp hj
    rw [hs] at ht
    cases ht
    rfl
  have hmap : (ids.map (fun id => (reg.csidIndex id).getD 0)).Nodup := by
    rw [List.Nodup, List.pairwise_map]
    exact hn.imp_of_mem (fun ha hb hne heq => hne (hinj _ ha _ hb heq))
  have hsub : ids.map (fun id => (reg.csidIndex id).getD 0) ⊆ List.range reg.streams.length := by
    intro i hi
    obtain ⟨id, hid, rfl⟩ := List.mem_map.mp hi
    obtain ⟨j, hj⟩ := Option.isSome_iff_exists.mp (hk id hid)
    rw [hj, List.mem_range]
    exact reg.indexed id j hj
  have hle := (List.subperm_of_subset hmap hsub).length_le
  rwa [List.length_map, List.length_range] at hle

/-- A chunk adds its own stream to the known ones and forgets none. -/
theorem chunk_read_known (hreg : Accounted reg) (buf : Buffer) (msg : ChunkMessage) :
    (∀ id, Known reg id → Known (chunkRead buf reg msg).1.reg id) ∧
      ((chunkRead buf reg msg).2 = .ok 1 →
        Known (chunkRead buf reg msg).1.reg (chunkRead buf reg msg).1.msg.csid) := by
  cases hp : peekChunk buf.peek reg with
  | more =>
    rw [chunkRead, hp]
    exact ⟨fun _ h => h, fun h => by cases h⟩
  | fail e =>
    rw [chunkRead, hp]
    exact ⟨fun _ h => h, fun h => by cases h⟩
  | ready h =>
    obtain ⟨reg1, idx, c, hl, -, hread⟩ := chunk_read_received hreg buf msg (ready_of_peek hp)
    obtain ⟨hself, hother, -⟩ := landing_index hreg hl
    have hnew : Known reg1 h.csid := by rw [Known, hself]; rfl
    have hkeep : ∀ id, Known reg id → Known reg1 id := by
      intro id hk
      by_cases he : id = h.csid
      · rw [he]
        exact hnew
      · rw [Known, hother id he]
        exact hk
    rw [hread]
    split
    · exact ⟨hkeep, fun _ => hnew⟩
    · exact ⟨hkeep, fun h => by cases h⟩

theorem set_stream_reassembling_known (idx : Nat) (r : Bool) :
    (reg.setStreamReassembling idx r).csidIndex = reg.csidIndex := by
  unfold ChunkRegistry.setStreamReassembling
  split <;> rfl

/-- The control handler keeps the accounts and the index. -/
theorem apply_control_known (hreg : Accounted reg) (ty : UInt8) (payload : List UInt8) :
    Accounted (applyControl reg ty payload) ∧
      (applyControl reg ty payload).csidIndex = reg.csidIndex := by
  unfold applyControl
  split
  · split
    · rename_i n _
      refine ⟨hreg.set_chunk_size n, ?_⟩
      unfold ChunkRegistry.setAllChunkSize
      split <;> rfl
    · exact ⟨hreg, rfl⟩
  split
  · split
    · rename_i csid _
      refine ⟨hreg.abort csid, ?_⟩
      unfold ChunkRegistry.abortStream
      split
      · rfl
      · exact @set_stream_reassembling_known (reg.releaseStreamReassembly _) _ _
    · exact ⟨hreg, rfl⟩
  · exact ⟨hreg, rfl⟩

structure AllKnown (d : DecodeState) : Prop where
  acc : Accounted d.reg
  known : ∀ x ∈ d.delivered, Known d.reg x.msg.csid

/-- The loop stays with chunk streams it knows. -/
theorem read_messages_known (fuel : Nat) {d d' : DecodeState} (hd : AllKnown d)
    (hr : readMessages borrowed applyControl fuel d = some d') : AllKnown d' := by
  induction fuel generalizing d with
  | zero => cases hr
  | succ fuel ih =>
    have hacc := hd.acc.chunk_read d.buf {}
    obtain ⟨hkeep, hnew⟩ := chunk_read_known hd.acc d.buf {}
    rw [readMessages, borrowed] at hr
    generalize chunkRead d.buf d.reg {} = r at hacc hkeep hnew hr
    obtain ⟨st, rc⟩ := r
    have hstay : ∀ x ∈ d.delivered, Known st.reg x.msg.csid := fun x hx =>
      hkeep _ (hd.known x hx)
    cases rc with
    | error e =>
      cases hr
      exact ⟨hacc, hstay⟩
    | ok n =>
      dsimp only [Except.map] at hr
      split at hr
      · rename_i hone
        split at hr
        · obtain ⟨hacc', hindex⟩ := apply_control_known hacc st.msg.msgTypeId st.payload
          have hsame : ∀ id, Known st.reg id →
              Known (applyControl st.reg st.msg.msgTypeId st.payload) id := by
            intro id hk
            rw [Known, hindex]
            exact hk
          refine ih ⟨hacc', ?_⟩ hr
          intro x hx
          rcases List.mem_append.mp hx with hx | hx
          · exact hsame _ (hstay x hx)
          · obtain rfl := List.mem_singleton.mp hx
            exact hsame _ (hnew (by rw [hone]))
        · exact ih ⟨hacc, hstay⟩ hr
      split at hr
      · cases hr
        exact ⟨hacc, hstay⟩
      · exact ih ⟨hacc, hstay⟩ hr

theorem append_piece_known {d d' : DecodeState} {piece : List UInt8} (hd : AllKnown d)
    (hr : appendPiece borrowed applyControl d piece = some d') : AllKnown d' := by
  rw [appendPiece] at hr
  split at hr
  · cases hr
    exact hd
  split at hr
  · cases hr
    exact ⟨hd.acc, hd.known⟩
  · rename_i buf _ _
    exact read_messages_known (d := { d with buf := buf }) _ ⟨hd.acc, hd.known⟩ hr

theorem pieces_known (pieces : List (List UInt8)) {d d' : DecodeState} (hd : AllKnown d)
    (hr : pieces.foldlM (appendPiece borrowed applyControl) d = some d') : AllKnown d' := by
  induction pieces generalizing d with
  | nil =>
    cases hr
    exact hd
  | cons piece pieces ih =>
    rw [List.foldlM_cons] at hr
    obtain ⟨d₁, h₁, hrest⟩ := Option.bind_eq_some_iff.mp hr
    exact ih (append_piece_known hd h₁) hrest

/-- Whatever bytes arrive, messages are delivered on at most 4096 chunk streams. -/
theorem delivered_streams_bounded (hreg : Accounted reg) {pieces : List (List UInt8)}
    {d : DecodeState} (hd : decodePieces borrowed applyControl reg pieces = some d)
    {ids : List Nat} (hn : ids.Nodup)
    (hids : ∀ id ∈ ids, ∃ x ∈ d.delivered, x.msg.csid = id) : ids.length ≤ maxChunkStreams := by
  have hall : AllKnown d := pieces_known pieces ⟨hreg, fun _ h => by cases h⟩ hd
  refine Nat.le_trans (known_length_le hall.acc hn ?_) hall.acc.table
  intro id hid
  obtain ⟨x, hx, rfl⟩ := hids id hid
  exact hall.known x hx

end LibRtmp.Proofs
