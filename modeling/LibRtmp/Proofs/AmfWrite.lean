import LibRtmp.Amf.Write
import LibRtmp.Buffer.Read

namespace LibRtmp.Proofs

open Actions Parsing

section Writers

theorem emits_all (d : List UInt8) : Emits Buffer.peek (writeAll d) (fun _ e => e = d) := by
  intro out u hu
  have hr := out.write_result d
  have hp := out.peek_write d
  change (orInternal (out.write d)).1 = .ok u at hu
  change ∃ e, (orInternal (out.write d)).2.peek = _ ∧ _
  generalize out.write d = w at hr hp hu
  obtain ⟨out', r⟩ := w
  subst hr
  split at hu
  · rename_i hfit
    rw [if_pos hfit]
    refine ⟨d, ?_, rfl⟩
    rcases hfit with rfl | hfit
    · rw [List.append_nil] at hp ⊢
      exact hp.trans (ite_self _)
    · rwa [if_pos hfit] at hp
  · cases hu

/-- One write after the other. -/
theorem emits_then {m : WriteM Unit} {P : Unit → List UInt8 → Prop} (d : List UInt8)
    (hm : Emits Buffer.peek m (fun u e => P u (d ++ e))) :
    Emits Buffer.peek (writeAll d >>= fun _ => m) P :=
  (emits_all d).bind fun _ _ he => he ▸ hm

theorem emits_number (bits : UInt64) :
    Emits Buffer.peek (Amf0.writeNumber bits) (fun _ d => d = Amf0.number bits) :=
  emits_then _ ((emits_all _).mono fun _ _ he => he ▸ rfl)

theorem emits_boolean (value : Bool) : Emits Buffer.peek (Amf0.writeBoolean value)
    (fun _ d => d = [0x01, if value then 1 else 0]) :=
  emits_then _ ((emits_all _).mono fun _ _ he => he ▸ rfl)

theorem emits_object_key (key : String) : Emits Buffer.peek (Amf0.writeObjectKey key)
    (fun _ d => d = Amf0.objectKey key ∧ key.utf8ByteSize < 2 ^ 16) := by
  unfold Amf0.writeObjectKey
  split
  · exact emits_throw _
  · rename_i hlen
    exact emits_then _ ((emits_all _).mono fun _ _ he => ⟨he ▸ rfl, by omega⟩)

theorem emits_string (s : String) : Emits Buffer.peek (Amf0.writeString s)
    (fun _ d => d = Amf0.string s ∧ s.utf8ByteSize < 2 ^ 16) := by
  unfold Amf0.writeString
  split
  · exact emits_throw _
  · rename_i hlen
    exact emits_then _ (emits_then _ ((emits_all _).mono fun _ _ he => ⟨he ▸ rfl, by omega⟩))

theorem emits_long_string_bytes (data : List UInt8) :
    Emits Buffer.peek (Amf0.writeLongStringBytes data)
      (fun _ d => d = 0x0C :: (Bytes.toBe 4 data.length ++ data) ∧ data.length < 2 ^ 32) := by
  unfold Amf0.writeLongStringBytes
  split
  · exact emits_throw _
  · rename_i hlen
    exact emits_then _ (emits_then _ ((emits_all _).mono fun _ _ he => ⟨he ▸ rfl, by omega⟩))

theorem emits_ecma_array_begin (count : UInt32) :
    Emits Buffer.peek (Amf0.writeEcmaArrayBegin count)
      (fun _ d => d = 0x08 :: Bytes.toBe 4 count.toNat) :=
  emits_then _ ((emits_all _).mono fun _ _ he => he ▸ rfl)

end Writers

end LibRtmp.Proofs
