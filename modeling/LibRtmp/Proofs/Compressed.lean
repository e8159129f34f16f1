import LibRtmp.Wire.Message
import LibRtmp.Proofs.Feeding

namespace LibRtmp.Proofs

open Wire

/-- Messages on one chunk stream, each with a header of any format that its context allows. -/
inductive Encodes (c csid : Nat) : Context → List Message → List Chunk → Prop where
  | nil (ctx : Context) : Encodes c csid ctx [] []
  | cons {ctx : Context} {w : Chunk} {payload : List UInt8} {cont ws : List Chunk}
      {ms : List Message} (wf : w.WellFormed) (id : w.csid = csid)
      (known : 2 ≤ w.header.fmt → ctx.started = true)
      (ext : w.ext.isSome = ctx.announces w.header)
      (length : payload.length = (ctx.next w).length) (data : w.data = payload.take c)
      (cut : Continues c csid (ctx.next w).ext (payload.drop c) cont)
      (next : Encodes c csid (ctx.next w) ms ws) :
      Encodes c csid ctx ((ctx.next w).message csid payload :: ms) (w :: (cont ++ ws))

variable {c csid : Nat} {lim : Limits} {load : Load} {ms : List Message} {ws : List Chunk}

theorem encodes_sends {ctx : Context} (henc : Encodes c csid ctx ms ws)
    (hroom : ∀ m ∈ ms, MessageRoom lim load m.payload.length) {ps : Nat → Peer}
    (hp : ps csid = { ctx }) : ∃ qs, Sends noResize lim load [csid] c ps ws ms c qs := by
  induction henc generalizing ps with
  | nil ctx => exact ⟨ps, .nil c ps⟩
  | @cons ctx w payload cont ws ms wf id known ext length data cut next ih =>
    have hidle : OthersIdle [csid] csid ps :=
      fun id hid hne => absurd (List.mem_singleton.mp hid) hne
    have hmsg := @message_sends noResize lim load [csid] c csid ps cont ctx w payload
      (List.pairwise_singleton _ csid) (List.mem_singleton.mpr rfl) hidle
      (hroom _ List.mem_cons_self) hp ⟨wf, id, known, ext, length, data⟩ cut
    obtain ⟨qs, hqs⟩ := ih (fun m hm => hroom m (List.mem_cons_of_mem _ hm))
      (Function.update_self csid { ctx := ctx.next w } ps)
    exact ⟨qs, hmsg.append hqs⟩

def contextOf (s : ChunkStream) : Context where
  started := s.hasMessageHeader
  timestamp := s.type0Timestamp
  length := s.type0MsgLength
  typeId := s.type0MsgTypeId
  streamId := s.type0MsgStreamId
  ext := s.type0ExtTs
  delta := s.lastDelta

/-- The registry seen from one chunk stream that has no message in progress. -/
theorem sync_single {reg : ChunkRegistry} (hacc : Accounted reg)
    (hidle : (reg.opened csid).reassembling = false) :
    Sync reg ⟨reg.reassemblyBytesInUse, reg.reassemblingCount,
      reg.streams.length - (reg.get csid).isSome.toNat⟩ [csid] reg.defaultSize
      (fun _ => { ctx := contextOf (reg.opened csid) }) := by
  have ht := hacc.opened_tracked csid
  have hz : (reg.opened csid).reassemblyBuf.peek = [] := by
    have hr : (reg.opened csid).reassemblyBytesRead = 0 := by
      by_contra hn
      rw [ht.flag.mp hn] at hidle
      cases hidle
    rw [ht.counted, Buffer.available_eq] at hr
    exact List.eq_nil_of_length_eq_zero hr
  constructor
  case acc => exact hacc
  case size => rfl
  case agrees =>
    intro id hid
    obtain rfl := List.mem_singleton.mp hid
    exact ⟨⟨rfl, rfl, rfl, rfl, rfl, rfl, rfl⟩, hz, fun _ => rfl, fun hn => absurd rfl hn,
      fun hn => absurd rfl hn⟩
  case bytes => simp [partialBytes]
  case count => simp [partialCount]
  case table =>
    cases hg : reg.get csid with
    | none => simp [hg]
    | some s =>
      obtain ⟨idx, hs, -⟩ := Option.map_eq_some_iff.mp hg
      have hlt := ChunkRegistry.slot_lt hs
      simp only [List.map_cons, List.map_nil, List.sum_cons, List.sum_nil, hg, Option.isSome_some,
        Bool.toNat_true]
      omega

/-- On a chunk stream with no message in progress, whatever headers a conforming peer chooses
are decoded by the RTMP rules: exactly its messages are delivered, in order. -/
theorem compressed_stream_decodes (msgLength : UInt32) (activeCsids reassembly : UInt64)
    (calls : List RegistryCall) (csid : Nat) (ms : List Message) (ws : List Chunk) :
    let reg := reached msgLength activeCsids reassembly calls
    (reg.opened csid).reassembling = false →
    (reg.get csid = none → reg.streams.length < maxChunkStreams) →
    reg.reassemblingCount < activeCsids.toNat →
    Encodes reg.defaultSize csid (contextOf (reg.opened csid)) ms ws →
    (∀ m ∈ ms, m.payload.length ≤ msgLength.toNat ∧
      reg.reassemblyBytesInUse + m.payload.length ≤ reassembly.toNat) →
    DecodesTo noControl reg (ws.map Chunk.bytes).flatten ms := by
  intro reg hidle htable hactive henc hlen
  obtain ⟨hacc, hlim⟩ := reached_accounted msgLength activeCsids reassembly calls
  simp only [limits, Prod.mk.injEq] at hlim
  have hlimits : limitsOf reg = ⟨msgLength.toNat, activeCsids.toNat, reassembly.toNat⟩ := by
    rw [limitsOf, hlim.1, hlim.2.1, hlim.2.2]
  have hroom : ∀ m ∈ ms, MessageRoom (limitsOf reg) ⟨reg.reassemblyBytesInUse,
      reg.reassemblingCount, reg.streams.length - (reg.get csid).isSome.toNat⟩
      m.payload.length := by
    intro m hm
    rw [hlimits]
    exact ⟨(hlen m hm).1, (hlen m hm).2, hactive⟩
  obtain ⟨qs, hsends⟩ := @encodes_sends _ _ _ _ _ _ _ henc hroom
    (fun _ => { ctx := contextOf (reg.opened csid) }) rfl
  have htab : reg.streams.length - (reg.get csid).isSome.toNat + 1 ≤ maxChunkStreams := by
    have hmax := hacc.table
    cases hg : reg.get csid with
    | none =>
      have hlt := htable hg
      simp only [Option.isSome_none, Bool.toNat_false]
      omega
    | some s =>
      obtain ⟨idx, hs, -⟩ := Option.map_eq_some_iff.mp hg
      have hlt : idx < reg.streams.length := ChunkRegistry.slot_lt hs
      change reg.streams.length ≤ maxChunkStreams at hmax
      simp only [Option.isSome_some, Bool.toNat_true]
      omega
  exact sends_decode (List.pairwise_singleton _ csid) htab hsends (no_control ms) rfl
    (sync_single hacc hidle)

/-- A chunk stream that opens with fmt 1 and reuses the whole header with fmt 3: the second
message repeats the delta. -/
theorem fmt_three_repeats_delta :
    DecodesTo noControl (reached 100 1 100 []) [0x43, 0, 0, 5, 0, 0, 1, 20, 7, 0xC3, 8]
      [⟨3, 5, 20, 0, [7]⟩, ⟨3, 10, 20, 0, [8]⟩] := by
  have hfirst : Chunk.WellFormed ⟨3, [0x43], .sameStream 5 1 20, none, [7]⟩ :=
    ⟨.one (by decide), by decide, by decide⟩
  have hsecond : Chunk.WellFormed ⟨3, [0xC3], .same, none, [8]⟩ :=
    ⟨.one (by decide), by decide, by decide⟩
  exact compressed_stream_decodes 100 1 100 [] 3
    [⟨3, 5, 20, 0, [7]⟩, ⟨3, 10, 20, 0, [8]⟩]
    [⟨3, [0x43], .sameStream 5 1 20, none, [7]⟩, ⟨3, [0xC3], .same, none, [8]⟩] rfl
    (fun _ => by decide) (by decide)
    (@Encodes.cons _ 3 _ _ [7] [] _ _ hfirst rfl (fun h => absurd h (by decide)) rfl rfl rfl .nil
      (@Encodes.cons _ 3 _ _ [8] [] _ _ hsecond rfl (fun _ => rfl) rfl rfl rfl .nil (.nil _)))
    (by decide)

end LibRtmp.Proofs
