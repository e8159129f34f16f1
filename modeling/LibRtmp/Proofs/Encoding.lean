import LibRtmp.Wire.Message
import LibRtmp.Proofs.Writing

namespace LibRtmp.Proofs

open Wire

variable {csid fmt c n : Nat} {ts : UInt32} {ty : UInt8} {sid : UInt32}

theorem basic_header_form (h : ValidCsid csid) (fmt : Nat) :
    BasicForm fmt csid (basicHeader csid fmt) := by
  obtain ⟨hmin, hmax⟩ := h
  change 2 ≤ csid at hmin
  change csid ≤ 65599 at hmax
  unfold basicHeader
  split
  · exact .one (by omega)
  split
  · exact .two (by omega)
  · have hle : Bytes.toLe 2 (csid - 64) =
        [UInt8.ofNat ((csid - 64) % 256), UInt8.ofNat ((csid - 64) / 256 % 256)] := by
      have hmod : ∀ k : Nat, UInt8.ofNat (k % 256) = UInt8.ofNat k := by
        intro k
        apply UInt8.toNat_inj.mp
        rw [UInt8.toNat_ofNat', UInt8.toNat_ofNat', Nat.mod_mod]
      simp [Bytes.toLe, Bytes.toBe, hmod]
    rw [← hle]
    exact .three (by omega)

def wireHeader (fmt : Nat) (tsField : UInt32) (length : Nat) (typeId : UInt8)
    (streamId : UInt32) : Header :=
  let ts := min tsField.toNat 0xFFFFFF
  match fmt with
  | 0 => .full ts length typeId streamId
  | 1 => .sameStream ts length typeId
  | _ => .sameLength ts

def wireFirst (csid fmt : Nat) (tsField : UInt32) (length : Nat) (typeId : UInt8)
    (streamId : UInt32) (data : List UInt8) : Chunk :=
  ⟨csid, basicHeader csid fmt, wireHeader fmt tsField length typeId streamId, extendedTs tsField,
    data⟩

def wireRest (csid : Nat) (ext : Option UInt32) (c : Nat) (rest : List UInt8) : List Chunk :=
  (Slices.chunks c rest).map (fun data => ⟨csid, basicHeader csid 3, .same, ext, data⟩)

theorem marker_min (ts : UInt32) :
    (if ts ≥ extendedTimestampMarker then extendedTimestampMarker else ts).toNat =
      min ts.toNat 0xFFFFFF := by
  split
  · rename_i h
    exact (Nat.min_eq_right (UInt32.le_iff_toNat_le.mp h)).symm
  · rename_i h
    exact (Nat.min_eq_left (Nat.le_of_lt (UInt32.lt_iff_toNat_lt.mp (UInt32.not_le.mp h)))).symm

theorem first_header_bytes (hf : fmt ≤ 2) (data : List UInt8) :
    firstHeader csid fmt ts n ty sid ++ data = (wireFirst csid fmt ts n ty sid data).bytes := by
  have hext : (if ts ≥ extendedTimestampMarker then Bytes.toBe 4 ts.toNat else []) =
      Chunk.extBytes (extendedTs ts) := by
    unfold extendedTs
    split <;> rfl
  simp only [firstHeader, decide_eq_true_eq, marker_min, hext]
  rcases (by omega : fmt = 0 ∨ fmt = 1 ∨ fmt = 2) with rfl | rfl | rfl <;>
    simp [wireFirst, wireHeader, Chunk.bytes, Header.bytes]

theorem continuation_bytes (csid : Nat) (ext : Option UInt32) (data : List UInt8) :
    continuationHeader csid ext ++ data =
      Chunk.bytes ⟨csid, basicHeader csid 3, .same, ext, data⟩ := by
  cases ext <;> simp [continuationHeader, Chunk.bytes, Header.bytes, Chunk.extBytes]

/-- The body of a written message: the data of the first chunk, then the other chunks. -/
theorem body_bytes_wire (csid : Nat) (payload : List UInt8) (chunkSize : Nat)
    (ext : Option UInt32) :
    bodyBytes csid payload chunkSize ext = payload.take (sizeOrDefault chunkSize) ++
      ((wireRest csid ext (sizeOrDefault chunkSize)
        (payload.drop (sizeOrDefault chunkSize))).map Chunk.bytes).flatten := by
  rw [bodyBytes, Slices.joined_chunks_flatten _ (size_or_default_pos chunkSize), wireRest,
    List.map_map]
  congr 3
  funext data
  exact continuation_bytes csid ext data

/-- A written message as chunks: the first one with its header, and the others. -/
theorem message_bytes_wire (hf : fmt ≤ 2) (payload : List UInt8) (chunkSize : Nat)
    (ext : Option UInt32) :
    firstHeader csid fmt ts n ty sid ++ bodyBytes csid payload chunkSize ext =
      ((wireFirst csid fmt ts n ty sid (payload.take (sizeOrDefault chunkSize)) ::
        wireRest csid ext (sizeOrDefault chunkSize)
          (payload.drop (sizeOrDefault chunkSize))).map Chunk.bytes).flatten := by
  rw [body_bytes_wire, ← List.append_assoc, first_header_bytes hf, List.map_cons,
    List.flatten_cons]

theorem wire_rest_continues (h : ValidCsid csid) (ext : Option UInt32) (hc : 0 < c)
    (rest : List UInt8) : Continues c csid ext.isSome rest (wireRest csid ext c rest) := by
  induction hlen : rest.length using Nat.strongRecOn generalizing rest with
  | ind k ih =>
    by_cases hr : rest = []
    · subst hr
      rw [wireRest, Slices.chunks_nil]
      exact .nil
    · have hpos := List.length_pos_iff.mpr hr
      rw [wireRest, Slices.chunks_cons hr hc]
      have hfits : Header.same.Fits := ⟨by decide, by decide⟩
      refine .cons ⟨basic_header_form h 3, hfits⟩ rfl rfl rfl hr rfl ?_
      exact ih (rest.drop c).length (by rw [List.length_drop]; omega) (rest.drop c) rfl

theorem wire_header_ts (fmt : Nat) (hf : fmt ≤ 2) (ts : UInt32) :
    (wireHeader fmt ts n ty sid).ts = min ts.toNat 0xFFFFFF := by
  rcases (by omega : fmt = 0 ∨ fmt = 1 ∨ fmt = 2) with rfl | rfl | rfl <;> rfl

theorem wire_header_fmt (hf : fmt ≤ 2) : (wireHeader fmt ts n ty sid).fmt = fmt := by
  rcases (by omega : fmt = 0 ∨ fmt = 1 ∨ fmt = 2) with rfl | rfl | rfl <;> rfl

theorem wire_header_fits (hf : fmt ≤ 2) (hn : n ≤ rtmpWireMaxMsgLength) :
    (wireHeader fmt ts n ty sid).Fits := by
  have hmax : n < 2 ^ 24 := Nat.lt_succ_of_le hn
  constructor
  · rw [wire_header_ts fmt hf]
    exact Nat.lt_of_le_of_lt (Nat.min_le_right ..) (by decide)
  · rcases (by omega : fmt = 0 ∨ fmt = 1 ∨ fmt = 2) with rfl | rfl | rfl
    · exact hmax
    · exact hmax
    · exact Nat.two_pow_pos 24

/-- The timestamp or delta is read back as it was written, extended or not. -/
theorem wire_first_time (hf : fmt ≤ 2) (data : List UInt8) :
    (wireFirst csid fmt ts n ty sid data).time = ts := by
  rw [Chunk.time, wireFirst, wire_header_ts fmt hf, extendedTs]
  split
  · rfl
  · rename_i h
    have hlt : ts.toNat < 0xFFFFFF := UInt32.lt_iff_toNat_lt.mp (UInt32.not_le.mp h)
    rw [Nat.min_eq_left (Nat.le_of_lt hlt)]
    exact UInt32.ofNat_toNat

/-- The extended field is there exactly when the timestamp field says so. -/
theorem wire_first_announced (hf : fmt ≤ 2) (ctx : Context) :
    (extendedTs ts).isSome = ctx.announces (wireHeader fmt ts n ty sid) := by
  have hiff : (ts ≥ extendedTimestampMarker) ↔ min ts.toNat 0xFFFFFF = 0xFFFFFF := by
    rw [ge_iff_le, UInt32.le_iff_toNat_le]
    change 0xFFFFFF ≤ ts.toNat ↔ _
    omega
  have hdec : decide (ts ≥ extendedTimestampMarker) = decide (min ts.toNat 0xFFFFFF = 0xFFFFFF) :=
    decide_eq_decide.mpr hiff
  rw [extended_ts_some, hdec]
  rcases (by omega : fmt = 0 ∨ fmt = 1 ∨ fmt = 2) with rfl | rfl | rfl <;> rfl

/-- A written first chunk starts a message wherever its format is known. -/
theorem wire_first_starts {ctx : Context} {payload : List UInt8} (hc : ValidCsid csid)
    (hf : fmt ≤ 2) (hn : n ≤ rtmpWireMaxMsgLength) (hknown : fmt = 2 → ctx.started = true)
    (hlen : payload.length =
      (ctx.next (wireFirst csid fmt ts n ty sid (payload.take c))).length) :
    Starts c csid ctx payload (wireFirst csid fmt ts n ty sid (payload.take c)) where
  wf := ⟨by rw [wireFirst, wire_header_fmt hf]; exact basic_header_form hc fmt,
    wire_header_fits hf hn⟩
  id := rfl
  known := by
    intro h
    rw [wireFirst, wire_header_fmt hf] at h
    exact hknown (Nat.le_antisymm hf h)
  ext := wire_first_announced hf ctx
  length := hlen
  data := rfl

/-- After an absolute header the context is the header's own. -/
theorem wire_first_absolute (ctx : Context) (data : List UInt8) :
    ctx.next (wireFirst csid 0 ts n ty sid data) =
      ⟨true, ts, n, ty, sid, (extendedTs ts).isSome, ts⟩ := by
  have ht := @wire_first_time csid 0 n ts ty sid (Nat.zero_le 2) data
  exact congrArg₂ (fun a b => Context.mk true a n ty sid (extendedTs ts).isSome b) ht ht

end LibRtmp.Proofs
