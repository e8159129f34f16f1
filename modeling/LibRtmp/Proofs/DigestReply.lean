import LibRtmp.Handshake.Server
import LibRtmp.Lib.Slices
import LibRtmp.Proofs.Hashing

namespace LibRtmp.Proofs

open Actions Handshake

section Offsets

variable {buf : List UInt8} {base : Nat}

theorem slice_eq {v : List UInt8} {a b : Nat} (hab : a ≤ b) (hb : b ≤ v.length) :
    sliceRange v a b = some ((v.drop a).take (b - a)) := by
  rw [sliceRange, if_pos ⟨hab, hb⟩, List.drop_take]

theorem slice_front {v : List UInt8} {n : Nat} (h : n ≤ v.length) :
    sliceRange v 0 n = some (v.take n) := by
  rw [slice_eq (Nat.zero_le n) h, List.drop_zero, Nat.sub_zero]

theorem slice_back {v : List UInt8} {n : Nat} (h : n ≤ v.length) :
    sliceRange v n v.length = some (v.drop n) := by
  rw [slice_eq h (Nat.le_refl _), List.take_of_length_le (by rw [List.length_drop])]

theorem copy_overlay {v d : List UInt8} {a : Nat} (h : a + d.length ≤ v.length) :
    copyInto v a d = some (Slices.overlay v a d) := copy_into_eq h

theorem copy_keeps_length {v d : List UInt8} {a : Nat} (h : a + d.length ≤ v.length) :
    ∃ v', copyInto v a d = some v' ∧ v'.length = v.length :=
  ⟨_, copy_overlay h, Slices.overlay_length h⟩

/-- Whatever the four bytes are, the digest lies behind them and in the block. -/
theorem offset_bounds (buf : List UInt8) (hbase : base ∈ digestBlockBases) :
    base + 4 ≤ offsetIn buf base ∧ offsetIn buf base + digestLen ≤ handshakeSize := by
  have hmod := Nat.mod_lt (((buf.drop base).take 4).map UInt8.toNat).sum (show 0 < 728 by omega)
  unfold offsetIn digestLen handshakeSize
  simp only [digestBlockBases, List.mem_cons, List.not_mem_nil, or_false] at hbase
  omega

theorem digest_offset_eq (hlen : buf.length = handshakeSize) (hbase : base ∈ digestBlockBases) :
    digestOffset buf base = some (offsetIn buf base) := by
  have hbounds := offset_bounds buf hbase
  unfold digestLen at hbounds
  rw [digestOffset, slice_eq (by omega) (by omega), Nat.add_sub_cancel_left]
  rfl

theorem digest_without_eq {offset : Nat} (hlen : buf.length = handshakeSize)
    (hoffset : offset + digestLen ≤ handshakeSize) (key : List UInt8) :
    digestWithout buf offset key =
      some (Sha2.hmac key (buf.take offset ++ buf.drop (offset + digestLen))) := by
  rw [digestWithout, slice_front (by omega), slice_back (by omega)]
  simp [hmac_eq]

/-- A digest put in its place does not move the place. -/
theorem overlay_offset {d : List UInt8} (hlen : buf.length = handshakeSize)
    (hbase : base ∈ digestBlockBases) (hd : d.length = digestLen) :
    offsetIn (Slices.overlay buf (offsetIn buf base) d) base = offsetIn buf base := by
  have hbounds := offset_bounds buf hbase
  have hselector : ((Slices.overlay buf (offsetIn buf base) d).drop base).take 4 =
      (buf.drop base).take 4 := by
    rw [List.take_drop, List.take_drop, Slices.overlay_take (by omega) (by omega)]
  generalize Slices.overlay buf (offsetIn buf base) d = signed at hselector ⊢
  rw [offsetIn, offsetIn, hselector]

/-- What is signed in place verifies. -/
theorem overlay_valid (key : List UInt8) (hlen : buf.length = handshakeSize)
    (hbase : base ∈ digestBlockBases) :
    DigestValid key (Slices.overlay buf (offsetIn buf base) (Sha2.hmac key
      (buf.take (offsetIn buf base) ++ buf.drop (offsetIn buf base + digestLen)))) base := by
  have hbounds := offset_bounds buf hbase
  have hmac : ∀ m, (Sha2.hmac key m).length = digestLen := fun m => digest_length _
  generalize hm : buf.take (offsetIn buf base) ++ buf.drop (offsetIn buf base + digestLen) = m
  have hd := hmac m
  have hfits : offsetIn buf base + (Sha2.hmac key m).length ≤ buf.length := by omega
  have hfront := Slices.overlay_take hfits (Nat.le_refl _)
  have hback := Slices.overlay_drop hfits (Nat.le_refl _)
  have hat := Slices.overlay_at hfits
  rw [hd] at hat hback
  rw [DigestValid, digestIn, overlay_offset hlen hbase hd, hfront, hback, hm, hat]

end Offsets

section Finding

variable {c1 : List UInt8}

/-- The search stops at the first base with a valid digest. -/
theorem find_digest_eq (hlen : c1.length = handshakeSize) {bases : List Nat}
    (hbases : ∀ b ∈ bases, b ∈ digestBlockBases) : findDigestIn c1 bases =
      some ((bases.find? (fun base => DigestValid fpKeyText c1 base)).map
        (fun base => (base, digestIn c1 base))) := by
  induction bases with
  | nil => rfl
  | cons base bases ih =>
    obtain ⟨hbase, hbases⟩ := List.forall_mem_cons.mp hbases
    have hbounds := offset_bounds c1 hbase
    rw [findDigestIn, digest_offset_eq hlen hbase]
    have hslice : sliceRange c1 (offsetIn c1 base) (offsetIn c1 base + digestLen) =
        some (digestIn c1 base) := by
      rw [slice_eq (by omega) (by omega), Nat.add_sub_cancel_left, digestIn]
    simp only [Option.bind_eq_bind, Option.bind_some, digest_without_eq hlen hbounds.2, hslice]
    by_cases hvalid : DigestValid fpKeyText c1 base
    · rw [List.find?_cons_of_pos (by simpa using hvalid), if_pos hvalid.symm]
      rfl
    · rw [List.find?_cons_of_neg (by simpa using hvalid), if_neg (fun h => hvalid h.symm)]
      exact ih hbases

theorem complex_iff (hlen : c1.length = handshakeSize) :
    c1RequestsComplexHandshake c1 = true ↔ (c1.drop 4).take 4 ≠ [0, 0, 0, 0] := by
  match c1, hlen with
  | a :: b :: c :: d :: v₀ :: v₁ :: v₂ :: v₃ :: tail, hlen =>
    have hsize : decide ((a :: b :: c :: d :: v₀ :: v₁ :: v₂ :: v₃ :: tail).length ≥
        handshakeSize) = true := decide_eq_true (Nat.le_of_eq hlen.symm)
    rw [c1RequestsComplexHandshake, hsize]
    simp [or_assoc]
    tauto

end Finding

section Replies

variable {base : Nat}

theorem zeros_length : (List.replicate handshakeSize (0 : UInt8)).length = handshakeSize :=
  List.length_replicate

theorem hmac_length (key m : List UInt8) : (Sha2.hmac key m).length = digestLen := digest_length _

/-- The digest of S1 verifies at its base. -/
theorem digest_s1_valid (fills : Fills) (hbase : base ∈ digestBlockBases) :
    ∃ s1, buildDigestS1 base fills = some s1 ∧ s1.length = handshakeSize ∧
      DigestValid fmsKeyText s1 base := by
  have hzeros := zeros_length
  have hfills := fills.s1Length
  have hsize : handshakeSize = 1536 := rfl
  have htime := Bytes.to_be_length 4 fills.time.toNat
  have hversion : serverDigestVersion.length = 4 := rfl
  obtain ⟨v₁, h₁, hlen₁⟩ := @copy_keeps_length (List.replicate handshakeSize 0) fills.s1 8
    (by omega)
  obtain ⟨v₂, h₂, hlen₂⟩ := @copy_keeps_length v₁ (Bytes.toBe 4 fills.time.toNat) 0 (by omega)
  obtain ⟨v₃, h₃, hlen₃⟩ := @copy_keeps_length v₂ serverDigestVersion 4 (by omega)
  have hlen : v₃.length = handshakeSize := by omega
  have hbounds := offset_bounds v₃ hbase
  have hfits (m : List UInt8) : offsetIn v₃ base + (Sha2.hmac fmsKeyText m).length ≤ v₃.length := by
    rw [hmac_length]
    omega
  refine ⟨_, ?_, ?_, overlay_valid fmsKeyText hlen hbase⟩
  · simp only [buildDigestS1, h₁, h₂, h₃, Option.bind_eq_bind, Option.bind_some,
      digest_offset_eq hlen hbase, digest_without_eq hlen hbounds.2, copy_overlay (hfits _)]
  · rw [Slices.overlay_length (hfits _), hlen]

theorem fms_full_key_eq : fmsFullKey = some (fmsKeyText ++ handshakeKeyTail) := by decide +kernel

/-- The reply is signed with the digest of C1. -/
theorem digest_s2_signed (fills : Fills) (c1Digest : List UInt8) :
    ∃ s2, buildDigestS2 c1Digest fills = some s2 ∧ s2.length = handshakeSize ∧
      S2Signed c1Digest s2 := by
  have hzeros := zeros_length
  have hfills := fills.s2Length
  have hsize : handshakeSize = 1536 := rfl
  have hdigest : digestLen = 32 := rfl
  obtain ⟨v, h, hlen⟩ := @copy_keeps_length (List.replicate handshakeSize 0) fills.s2 0 (by omega)
  generalize hkey : Sha2.hmac (fmsKeyText ++ handshakeKeyTail) c1Digest = signKey
  generalize hsig : Sha2.hmac signKey (v.take (handshakeSize - digestLen)) = signature
  have hsigned : signature.length = digestLen := hsig ▸ hmac_length _ _
  have hfits : handshakeSize - digestLen + signature.length ≤ v.length := by omega
  refine ⟨Slices.overlay v (handshakeSize - digestLen) signature, ?_, ?_, ?_⟩
  · simp only [buildDigestS2, h, fms_full_key_eq, Option.bind_eq_bind, Option.bind_some, hmac_eq,
      List.flatten_cons, List.flatten_nil, List.append_nil, hkey,
      slice_front (show handshakeSize - digestLen ≤ v.length by omega), hsig, copy_overlay hfits]
  · rw [Slices.overlay_length hfits]
    omega
  · have hat := Slices.overlay_at hfits
    rw [List.take_of_length_le] at hat
    · rw [S2Signed, hat, Slices.overlay_take hfits (Nat.le_refl _), hkey, hsig]
    · rw [List.length_drop, Slices.overlay_length hfits]
      omega

theorem plain_reply_echoes {c1 : List UInt8} (hlen : c1.length = handshakeSize) (fills : Fills) :
    ∃ s1 s2, buildPlainS1s2 c1 fills = some (s1, s2) ∧ s1.length = handshakeSize ∧
      s2.length = handshakeSize ∧ s2.take 4 = c1.take 4 ∧ s2.drop 8 = c1.drop 8 := by
  have hzeros := zeros_length
  have hfills := fills.s1Length
  have hsize : handshakeSize = 1536 := rfl
  have htime := Bytes.to_be_length 4 fills.time.toNat
  obtain ⟨v₁, h₁, hlen₁⟩ := @copy_keeps_length (List.replicate handshakeSize 0)
    (Bytes.toBe 4 fills.time.toNat) 0 (by omega)
  obtain ⟨v₂, h₂, hlen₂⟩ := @copy_keeps_length v₁ fills.s1 8 (by omega)
  have hfits : 4 + (Bytes.toBe 4 fills.time.toNat).length ≤ c1.length := by omega
  refine ⟨v₂, Slices.overlay c1 4 (Bytes.toBe 4 fills.time.toNat), ?_, by omega, ?_, ?_, ?_⟩
  · simp only [buildPlainS1s2, h₁, h₂, copy_overlay hfits, Option.bind_eq_bind, Option.bind_some]
  · rw [Slices.overlay_length hfits, hlen]
  · exact Slices.overlay_take hfits (Nat.le_refl 4)
  · exact Slices.overlay_drop hfits (by omega)

/-- A C1 of the right length is always answered. -/
theorem answer_c1 {c1 : List UInt8} (hlen : c1.length = handshakeSize) (fills : Fills) :
    ∃ s1 s2 mode, answerC1 c1 fills = some (s1, s2, mode) ∧ Answers c1 s1 s2 mode := by
  have hfound : findIf (c1RequestsComplexHandshake c1) c1 =
      some ((requestedBase c1).map (fun base => (base, digestIn c1 base))) := by
    rw [requestedBase, findIf]
    by_cases hcomplex : c1RequestsComplexHandshake c1 = true
    · rw [if_pos hcomplex, if_neg ((complex_iff hlen).mp hcomplex)]
      exact find_digest_eq hlen fun _ hb => hb
    · rw [if_neg hcomplex, if_pos (not_not.mp fun h => hcomplex ((complex_iff hlen).mpr h))]
      rfl
  rw [answerC1, hfound, Option.bind_eq_bind, Option.bind_some]
  cases hbase : requestedBase c1 with
  | some base =>
    have hmem : base ∈ digestBlockBases := by
      rw [requestedBase] at hbase
      split at hbase
      · cases hbase
      · exact List.mem_of_find?_eq_some hbase
    obtain ⟨s1, hs1, hlen1, hvalid⟩ := digest_s1_valid fills hmem
    obtain ⟨s2, hs2, hlen2, hsigned⟩ := digest_s2_signed fills (digestIn c1 base)
    refine ⟨s1, s2, .digest base, ?_, hlen1, hlen2, fun b hb => ?_, fun hnone => ?_⟩
    · simp only [Option.map_some, buildDigestS1s2, hs1, hs2, Option.bind_eq_bind, Option.bind_some]
    · rw [hbase] at hb
      cases hb
      exact ⟨rfl, hvalid, hsigned⟩
    · rw [hbase] at hnone
      cases hnone
  | none =>
    obtain ⟨s1, s2, hplain, hlen1, hlen2, hfront, hback⟩ := plain_reply_echoes hlen fills
    refine ⟨s1, s2, if c1RequestsComplexHandshake c1 then .simpleFallback else .simple, ?_, hlen1,
      hlen2, fun b hb => ?_, fun _ => ⟨fun base => ?_, hfront, hback⟩⟩
    · simp only [Option.map_none, hplain, Option.bind_eq_bind, Option.bind_some]
    · rw [hbase] at hb
      cases hb
    · split <;> simp

end Replies

/-- Every C1 is answered: a valid digest with a reply that verifies, any other C1 with its echo.
The digest lies inside the block and clear of the bytes that locate it. -/
theorem handshake_reply_verifies (fills : Fills) (hs : Handshake) (buf : Buffer)
    (c1 tail : List UInt8) (hbuf : buf.peek = c1 ++ tail) (hlen : c1.length = handshakeSize) :
    (∃ mode hs' buf' s1 s2, serverReadC1Mode fills hs buf = some (.ok mode, hs', buf') ∧
      hs'.out.peek = s1 ++ s2 ∧ Answers c1 s1 s2 mode) ∧
    ∀ block : List UInt8, block.length = handshakeSize → ∀ base ∈ digestBlockBases,
      digestOffset block base = some (offsetIn block base) ∧ base + 4 ≤ offsetIn block base ∧
        offsetIn block base + digestLen ≤ handshakeSize := by
  refine ⟨?_, fun block hblock base hbase => ⟨digest_offset_eq hblock hbase,
    offset_bounds block hbase⟩⟩
  have hthere : ¬ buf.available < handshakeSize := by
    rw [Buffer.available_eq, hbuf, List.length_append]
    omega
  obtain ⟨hread, -⟩ := reads_bytes .io hlen buf tail hbuf
  obtain ⟨s1, s2, mode, hanswer, hreply⟩ := answer_c1 hlen fills
  have hlen1 := hreply.s1Length
  have hlen2 := hreply.s2Length
  have hsize : handshakeSize = 1536 := rfl
  have hroom : hs.out.reset.peek.length + (s1 ++ s2).length ≤ bufferMaxSize := by
    have hmax : 3072 ≤ bufferMaxSize := by decide
    rw [Buffer.peek_reset, List.length_append, List.length_nil]
    omega
  obtain ⟨out, hqueue, hout⟩ := ((WriteM.appends_write s1).bind (f := fun _ => writeAll s2)
    (WriteM.appends_write s2)) hs.out.reset hroom
  have hpeer : sliceRange c1 0 4 = some (c1.take 4) := slice_front (by omega)
  rw [serverReadC1Mode, if_neg hthere]
  generalize (readBytes .io handshakeSize).on buf = r at hread ⊢
  obtain ⟨r, buf'⟩ := r
  cases hread
  refine ⟨mode,
    { hs with peerTime := Handshake.ntoh32 (c1.take 4), out, state := .serverWaitC2 }, buf', s1, s2,
    ?_, ?_, hreply⟩
  · simp only [hpeer, hanswer, Option.bind_eq_bind, Option.bind_some, queueReply]
    rw [hqueue]
  · rw [Buffer.peek_reset] at hout
    exact hout

section Signed

def unsignedC1 : List UInt8 := Slices.overlay (List.replicate handshakeSize 0) 4 [1, 0, 0, 0]

def signedC1 : List UInt8 :=
  Slices.overlay unsignedC1 (offsetIn unsignedC1 772) (Sha2.hmac fpKeyText
    (unsignedC1.take (offsetIn unsignedC1 772) ++
      unsignedC1.drop (offsetIn unsignedC1 772 + digestLen)))

def zeroFills : Fills where
  s1 := List.replicate (handshakeSize - 8) 0
  s2 := List.replicate handshakeSize 0
  time := 0
  s1Length := List.length_replicate
  s2Length := List.length_replicate

theorem unsigned_length : unsignedC1.length = handshakeSize := by
  rw [unsignedC1, Slices.overlay_length (by rw [zeros_length]; decide), zeros_length]

theorem signed_length : signedC1.length = handshakeSize := by
  have hlen := unsigned_length
  have hbounds := offset_bounds unsignedC1 (show 772 ∈ digestBlockBases by decide)
  rw [signedC1, Slices.overlay_length (by rw [hmac_length]; omega), hlen]

theorem signed_requests : requestedBase signedC1 = some 772 := by
  have hlen := unsigned_length
  have hbase : 772 ∈ digestBlockBases := by decide
  have hbounds := offset_bounds unsignedC1 hbase
  have hvalid : DigestValid fpKeyText signedC1 772 := overlay_valid fpKeyText hlen hbase
  have hfront : signedC1.take 8 = unsignedC1.take 8 :=
    Slices.overlay_take (by rw [hmac_length]; omega) (by omega)
  have hversion : (signedC1.drop 4).take 4 = [1, 0, 0, 0] := by
    rw [List.take_drop, hfront]
    decide
  rw [requestedBase, hversion, if_neg (by decide)]
  exact List.find?_cons_of_pos (by simpa using hvalid)

theorem signed_fits : signedC1.length ≤ isizeMax := by
  rw [signed_length]
  decide

end Signed

theorem signed_c1_verified : ∃ hs' buf' s1 s2,
    serverReadC1Mode zeroFills {} (.fromSlice signedC1 signed_fits) =
      some (.ok (.digest 772), hs', buf') ∧ hs'.out.peek = s1 ++ s2 ∧
      DigestValid fmsKeyText s1 772 := by
  have hpeek : (Buffer.fromSlice signedC1 signed_fits).peek = signedC1 ++ [] := by
    rw [Buffer.peek_from_slice, List.append_nil]
  obtain ⟨⟨mode, hs', buf', s1, s2, hcall, hout, hreply⟩, -⟩ :=
    handshake_reply_verifies zeroFills {} _ signedC1 [] hpeek signed_length
  obtain ⟨hmode, hvalid, -⟩ := hreply.digest 772 signed_requests
  rw [hmode] at hcall
  exact ⟨hs', buf', s1, s2, hcall, hout, hvalid⟩

end LibRtmp.Proofs
