import LibRtmp.Handshake.Sha256
import Mathlib.Data.List.Basic

namespace LibRtmp.Proofs

open Sha2 (Words wordOfBe)

variable (s : Words) (block : List UInt8)

section Constants

theorem primes_listed : Sha2.primes =
    [2, 3, 5, 7, 11, 13, 17, 19, 23, 29, 31, 37, 41, 43, 47, 53, 59, 61, 67, 71, 73, 79, 83, 89,
      97, 101, 103, 107, 109, 113, 127, 131, 137, 139, 149, 151, 157, 163, 167, 173, 179, 181, 191,
      193, 197, 199, 211, 223, 227, 229, 233, 239, 241, 251, 257, 263, 269, 271, 277, 281, 283,
      293, 307, 311] := by
  decide +kernel

theorem root_fraction_eq {n p q : Nat} {x : UInt32}
    (hle : (q * 2 ^ 32 + x.toNat) ^ n ≤ p * (2 ^ 32) ^ n)
    (hlt : p * (2 ^ 32) ^ n < (q * 2 ^ 32 + x.toNat + 1) ^ n)
    (hbound : q * 2 ^ 32 + x.toNat ≤ p * 2 ^ 32) : Sha2.rootFraction n p = x := by
  rw [Sha2.rootFraction, Sha2.scaled_root_eq hle hlt hbound]
  apply UInt32.toNat_inj.mp
  have hx := x.toNat_lt
  rw [UInt32.toNat_ofNat']
  omega

theorem round_constant_eq {t : Nat} (h : t < 64) :
    Sha2.roundConstant t = Sha256.k.getD t 0 := by
  have hall : ∀ t < 64, ∃ q < 7,
      (q * 2 ^ 32 + (Sha256.k.getD t 0).toNat) ^ 3 ≤ Sha2.primes.getD t 0 * (2 ^ 32) ^ 3 ∧
      Sha2.primes.getD t 0 * (2 ^ 32) ^ 3 < (q * 2 ^ 32 + (Sha256.k.getD t 0).toNat + 1) ^ 3 ∧
      q * 2 ^ 32 + (Sha256.k.getD t 0).toNat ≤ Sha2.primes.getD t 0 * 2 ^ 32 := by
    rw [primes_listed]
    decide +kernel
  obtain ⟨q, -, hle, hlt, hbound⟩ := hall t h
  exact root_fraction_eq hle hlt hbound

theorem initial_hash_eq : Sha2.initialHash = Sha256.h0 := by
  have hall : ∀ i < 8, ∃ q < 5,
      (q * 2 ^ 32 + (Sha256.h0.toList.getD i 0).toNat) ^ 2 ≤
        Sha2.primes.getD i 0 * (2 ^ 32) ^ 2 ∧
      Sha2.primes.getD i 0 * (2 ^ 32) ^ 2 <
        (q * 2 ^ 32 + (Sha256.h0.toList.getD i 0).toNat + 1) ^ 2 ∧
      q * 2 ^ 32 + (Sha256.h0.toList.getD i 0).toNat ≤ Sha2.primes.getD i 0 * 2 ^ 32 := by
    rw [primes_listed]
    decide +kernel
  have hword {i : Nat} (h : i < 8) : Sha2.initialWord i = Sha256.h0.toList.getD i 0 := by
    obtain ⟨q, -, hle, hlt, hbound⟩ := hall i h
    exact root_fraction_eq hle hlt hbound
  unfold Sha2.initialHash
  rw [hword (i := 0), hword (i := 1), hword (i := 2), hword (i := 3), hword (i := 4),
    hword (i := 5), hword (i := 6), hword (i := 7)]
  · rfl
  all_goals omega

end Constants

section Compression

theorem rotate_right_eq (x : UInt32) {n : Nat} (h : n < 32) :
    Sha256.rotateRight x n = Sha2.rotr n x := by
  rw [Sha256.rotateRight, Sha2.rotr, BitVec.rotateRight, Nat.mod_eq_of_lt h]
  rfl

def setEach {α : Type} (d : α) (g : Nat → α → α) (w : List α) (n : Nat) : List α :=
  (List.range n).foldl (fun w i => w.set i (g i (w.getD i d))) w

theorem set_each_get {α : Type} (d : α) (g : Nat → α → α) (w : List α) {n : Nat}
    (hn : n ≤ w.length) : (setEach d g w n).length = w.length ∧
      ∀ i < w.length, (setEach d g w n).getD i d =
        if i < n then g i (w.getD i d) else w.getD i d := by
  induction n with
  | zero => exact ⟨rfl, fun _ _ => rfl⟩
  | succ n ih =>
    obtain ⟨hlen, hout⟩ := ih (by omega)
    have hstep : setEach d g w (n + 1) =
        (setEach d g w n).set n (g n ((setEach d g w n).getD n d)) := by
      rw [setEach, List.range_succ, List.foldl_append]
      rfl
    have hset (x : α) (i : Nat) (hi : i < w.length) : ((setEach d g w n).set n x).getD i d =
        if n = i then x else (setEach d g w n).getD i d := by
      rw [List.getD_eq_getElem?_getD, List.getElem?_set, List.getD_eq_getElem?_getD]
      split
      · rw [if_pos (by omega)]
        rfl
      · rfl
    rw [hstep]
    refine ⟨by rw [List.length_set, hlen], fun i hi => ?_⟩
    rw [hset _ i hi, hout i hi, hout n (by omega), if_neg (Nat.lt_irrefl n)]
    by_cases hin : n = i
    · subst hin
      rw [if_pos rfl, if_pos (by omega)]
    · have hsame : i < n + 1 ↔ i < n := by omega
      rw [if_neg hin]
      simp only [hsame]

theorem load_block_eq : (Sha256.loadBlock block).length = 64 ∧
    ∀ i < 16, (Sha256.loadBlock block).getD i 0 = Sha2.schedule block i := by
  have hload : Sha256.loadBlock block = setEach 0
    (fun i _ => wordOfBe ((block.drop (4 * i)).take 4)) (List.replicate 64 0) 16 := rfl
  obtain ⟨hlen, hout⟩ := set_each_get 0 (fun i _ => wordOfBe ((block.drop (4 * i)).take 4))
    (List.replicate 64 0) (n := 16) (by simp)
  rw [List.length_replicate] at hlen hout
  rw [hload]
  refine ⟨hlen, fun i hi => ?_⟩
  rw [hout i (by omega), if_pos hi, Sha2.schedule, dif_pos hi]

theorem extend_at_eq {block : List UInt8} {w : List UInt32} {i : Nat} (hi : 16 ≤ i)
    (hw : ∀ j < i, w.getD j 0 = Sha2.schedule block j) :
    Sha256.extendAt w i = w.set i (Sha2.schedule block i) := by
  rw [Sha256.extendAt, hw _ (by omega), hw _ (by omega), hw _ (by omega), hw _ (by omega)]
  rw [Sha2.schedule.eq_def block i, dif_neg (by omega)]
  generalize Sha2.schedule block (i - 2) = y
  generalize Sha2.schedule block (i - 15) = x
  have hsmall0 : Sha256.rotateRight x 7 ^^^ Sha256.rotateRight x 18 ^^^ x >>> 3 =
      Sha2.smallSigma0 x := by
    rw [rotate_right_eq x (by omega), rotate_right_eq x (by omega)]
    rfl
  have hsmall1 : Sha256.rotateRight y 17 ^^^ Sha256.rotateRight y 19 ^^^ y >>> 10 =
      Sha2.smallSigma1 y := by
    rw [rotate_right_eq y (by omega), rotate_right_eq y (by omega)]
    rfl
  rw [hsmall0, hsmall1]
  congr 1
  ac_rfl

/-- The array agrees with the schedule as far as it has been filled. -/
theorem expand_upto {n : Nat} (hn : n ≤ 48) :
    ((List.range' 16 n).foldl Sha256.extendAt (Sha256.loadBlock block)).length = 64 ∧
      ∀ i < 16 + n, ((List.range' 16 n).foldl Sha256.extendAt (Sha256.loadBlock block)).getD i 0 =
        Sha2.schedule block i := by
  induction n with
  | zero => simpa only [List.range'_zero, List.foldl_nil, Nat.add_zero] using load_block_eq block
  | succ n ih =>
    obtain ⟨hlen, hw⟩ := ih (by omega)
    rw [List.range'_concat, List.foldl_append, Nat.one_mul]
    generalize (List.range' 16 n).foldl Sha256.extendAt (Sha256.loadBlock block) = w at hlen hw
    rw [List.foldl_cons, List.foldl_nil, extend_at_eq (by omega) hw]
    refine ⟨by rw [List.length_set, hlen], fun i hi => ?_⟩
    rw [List.getD_eq_getElem?_getD]
    by_cases hin : i = 16 + n
    · rw [hin, List.getElem?_set_self (by omega)]
      rfl
    · rw [List.getElem?_set_ne (by omega), ← List.getD_eq_getElem?_getD]
      exact hw i (by omega)

theorem round_eq (s : Words) {t : Nat} (h : t < 64) :
    Sha256.round (Sha256.expand block) s t = Sha2.round block s t := by
  have hw : (Sha256.expand block).getD t 0 = Sha2.schedule block t :=
    (expand_upto block (Nat.le_refl 48)).2 t h
  unfold Sha256.round Sha2.round
  rw [hw, round_constant_eq h, rotate_right_eq s.e (by omega), rotate_right_eq s.e (by omega),
    rotate_right_eq s.e (by omega), rotate_right_eq s.a (by omega), rotate_right_eq s.a (by omega),
    rotate_right_eq s.a (by omega)]
  rfl

/-- Compression is that of the standard. -/
theorem compress_eq :
    Sha256.compress s block = Sha2.compress s block := by
  have hrounds : (List.range 64).foldl (Sha256.round (Sha256.expand block)) s =
      (List.range 64).foldl (Sha2.round block) s :=
    List.foldl_ext _ _ s fun s t ht => round_eq block s (List.mem_range.mp ht)
  rw [Sha256.compress, Sha2.compress, hrounds]

end Compression

section Updating

variable {h : Sha256} {xs data : List UInt8}

theorem copy_into_eq {v d : List UInt8} {at' : Nat} (h : at' + d.length ≤ v.length) :
    copyInto v at' d = some (v.take at' ++ d ++ v.drop (at' + d.length)) := if_pos h

/-- The hasher after some input: whole blocks are compressed, the rest is in the block. -/
structure Absorbed (h : Sha256) (xs : List UInt8) : Prop where
  state : h.state = (Blocks.blocks 64 xs).foldl Sha256.compress Sha256.h0
  size : h.block.length = 64
  rest : h.block.take h.blockLen = Blocks.rest 64 xs
  len : h.blockLen = xs.length % 64
  total : h.totalLen = UInt64.ofNat xs.length

theorem absorbed_new : Absorbed .new [] := ⟨rfl, rfl, rfl, rfl, rfl⟩

/-- From a block boundary, what comes next is cut into blocks. -/
theorem feed_absorbs (xs ys : List UInt8) (hsize : h.block.length = 64)
    (hstate : h.state = (Blocks.blocks 64 xs).foldl Sha256.compress Sha256.h0)
    (hrest : Blocks.rest 64 xs = []) (htotal : h.totalLen = UInt64.ofNat (xs ++ ys).length) :
    ∃ h', h.feed ys = some h' ∧ Absorbed h' (xs ++ ys) := by
  have hshort : (Blocks.rest 64 ys).length ≤ h.block.length := by
    rw [Blocks.rest_length, hsize]
    omega
  obtain ⟨hblocks, hleft⟩ := Blocks.blocks_append (w := 64) (by decide) xs ys
  rw [hrest, List.nil_append] at hblocks hleft
  have hcopy := @copy_into_eq h.block (Blocks.rest 64 ys) 0 (by omega)
  refine ⟨⟨(Blocks.blocks 64 ys).foldl Sha256.compress h.state, _, (Blocks.rest 64 ys).length,
    h.totalLen⟩, by rw [Sha256.feed, hcopy]; rfl, ?_, ?_, ?_, ?_, htotal⟩
  · dsimp only
    rw [hblocks, List.foldl_append, hstate]
  · simp only [List.length_append, List.length_take, List.length_drop]
    omega
  · simp [hleft]
  · dsimp only
    rw [← hleft, Blocks.rest_length]

/-- Feeding more input is having had all of it. -/
theorem update_absorbs (hx : Absorbed h xs) (data : List UInt8) :
    ∃ h', h.update data = some h' ∧ Absorbed h' (xs ++ data) := by
  obtain ⟨hstate, hsize, hrest, hlen, htotal⟩ := hx
  have hsum : h.totalLen + UInt64.ofNat data.length = UInt64.ofNat (xs ++ data).length := by
    rw [htotal, List.length_append, UInt64.ofNat_add]
  have hbound : h.blockLen < 64 := by omega
  have hleft : (Blocks.rest 64 xs).length = h.blockLen := by rw [Blocks.rest_length, hlen]
  unfold Sha256.update
  by_cases hempty : h.blockLen > 0
  · rw [if_pos hempty]
    dsimp only
    generalize htake : min (64 - h.blockLen) data.length = take
    have hfirst : (data.take take).length = take := List.length_take_of_le (by omega)
    rw [copy_into_eq (by rw [hfirst]; omega), hrest, hfirst]
    by_cases hfull : h.blockLen + take < 64
    · -- All of the data fits into the block.
      have hall : data.take take = data := List.take_of_length_le (by omega)
      rw [hall] at hfirst ⊢
      obtain ⟨hblocks, hmore⟩ := @Blocks.blocks_append_short _ 64 xs data (by decide) (by omega)
      refine ⟨⟨h.state, _, h.blockLen + take, _⟩, if_pos hfull, ?_, ?_, ?_, ?_, hsum⟩
      · rw [hblocks]
        exact hstate
      · simp only [List.length_append, List.length_drop]
        omega
      · dsimp only
        rw [hmore]
        exact List.take_left' (by rw [List.length_append]; omega)
      · dsimp only
        rw [List.length_append]
        omega
    · -- The block is filled, and the rest of the data comes next.
      have hsixtyfour : h.blockLen + take = 64 := by omega
      have hnone : h.block.drop (h.blockLen + take) = [] :=
        List.drop_eq_nil_of_le (by omega)
      rw [hnone, List.append_nil]
      obtain ⟨hblocks, hmore⟩ := @Blocks.blocks_append_full _ 64 xs (data.take take) (by decide)
        (by omega)
      have hfeed := feed_absorbs (h := ⟨Sha256.compress h.state (Blocks.rest 64 xs ++ data.take take),
        Blocks.rest 64 xs ++ data.take take, 0, h.totalLen + UInt64.ofNat data.length⟩)
        (xs ++ data.take take) (data.drop take)
      rw [List.append_assoc, List.take_append_drop] at hfeed
      rw [Option.bind_eq_bind, Option.bind_some, if_neg hfull]
      refine hfeed ?_ ?_ hmore hsum
      · rw [List.length_append]
        omega
      · rw [hblocks, List.foldl_append, ← hstate]
        rfl
  · rw [if_neg hempty]
    refine feed_absorbs (h := ⟨h.state, h.block, h.blockLen, _⟩) xs data hsize hstate ?_ hsum
    apply List.eq_nil_of_length_eq_zero
    omega

theorem update_all_absorbs (hx : Absorbed h xs) (parts : List (List UInt8)) :
    ∃ h', h.updateAll parts = some h' ∧ Absorbed h' (xs ++ parts.flatten) := by
  induction parts generalizing h xs with
  | nil => exact ⟨h, rfl, by simpa using hx⟩
  | cons part parts ih =>
    obtain ⟨h₁, hone, hx₁⟩ := update_absorbs hx part
    obtain ⟨h₂, hall, hx₂⟩ := ih hx₁
    refine ⟨h₂, ?_, by simpa using hx₂⟩
    rw [Sha256.updateAll, List.foldlM_cons, hone]
    exact hall

theorem bit_length_eq (len : Nat) :
    Bytes.toBe 8 (UInt64.ofNat len * 8).toNat = Bytes.toBe 8 (8 * len) := by
  have hwrap : (UInt64.ofNat len * 8).toNat = 8 * len % 256 ^ 8 := by
    rw [UInt64.toNat_mul, UInt64.toNat_ofNat', Nat.mul_comm, Nat.mul_mod_mod]
    rfl
  rw [hwrap, Bytes.to_be_mod]

/-- The padding is that of the standard. -/
theorem padding_eq (len : Nat) : Sha2.padding len =
    (0x80 :: List.replicate 71 0).take
        (if len % 64 < 56 then 56 - len % 64 else 120 - len % 64) ++
      Bytes.toBe 8 (UInt64.ofNat len * 8).toNat := by
  have htake {n : Nat} (h : n ≤ 71) : (0x80 :: List.replicate 71 (0 : UInt8)).take (n + 1) =
      0x80 :: List.replicate n 0 := by
    rw [List.take_succ_cons, List.take_replicate, Nat.min_eq_left h]
  have hcount : (if len % 64 < 56 then 56 - len % 64 else 120 - len % 64) =
      (119 - len % 64) % 64 + 1 := by
    split <;> omega
  rw [bit_length_eq, hcount, htake (by omega), Sha2.padding, List.cons_append]

/-- What is finished is the hash of all the input. -/
theorem finalize_absorbed (hx : Absorbed h xs) : h.finalize = some (Sha2.sha256 xs) := by
  have hpad := padding_eq xs.length
  have hle : (if h.blockLen < 56 then 56 - h.blockLen else 120 - h.blockLen) ≤ 72 := by
    split <;> omega
  rw [← hx.len, ← hx.total] at hpad
  rw [Sha256.finalize]
  generalize (if h.blockLen < 56 then 56 - h.blockLen else 120 - h.blockLen) = padLen at hpad hle ⊢
  have hslice : sliceRange (0x80 :: List.replicate 71 0) 0 padLen =
      some ((0x80 :: List.replicate 71 0).take padLen) :=
    if_pos ⟨Nat.zero_le _, by simpa using hle⟩
  obtain ⟨h₁, hone, hx₁⟩ := update_absorbs hx ((0x80 :: List.replicate 71 0).take padLen)
  obtain ⟨h₂, htwo, hx₂⟩ := update_absorbs hx₁ (Bytes.toBe 8 (h.totalLen * 8).toNat)
  rw [List.append_assoc, ← hpad] at hx₂
  have hfull : h₂.blockLen = 0 := by rw [hx₂.len, Sha2.padded_length]
  have hcompress : Sha256.compress = Sha2.compress := funext₂ compress_eq
  simp only [hslice, hone, htwo, Option.bind_eq_bind, Option.bind_some, if_pos hfull]
  rw [Sha2.sha256, hx₂.state, hcompress, initial_hash_eq]
  rfl

end Updating

section Keys

/-- The bytes of a pad are those of the key, each changed. -/
theorem xor_pad_eq {k : List UInt8} (hk : k.length = 64) (byte : UInt8) :
    xorPad byte k = k.map (fun b => b ^^^ byte) := by
  obtain ⟨hlen, hout⟩ := set_each_get 0 (fun i b => b ^^^ k.getD i 0) (List.replicate 64 byte)
    (n := 64) (by simp)
  have hpad : xorPad byte k =
    setEach 0 (fun i b => b ^^^ k.getD i 0) (List.replicate 64 byte) 64 := rfl
  rw [List.length_replicate, ← hpad] at hlen
  rw [List.length_replicate, ← hpad] at hout
  generalize xorPad byte k = out at hlen hout
  apply List.ext_getElem (by rw [hlen, List.length_map, hk])
  intro i hi hi'
  have hget := hout i (by omega)
  rw [if_pos (by omega), List.getD_eq_getElem?_getD, List.getElem?_eq_getElem hi,
    Option.getD_some] at hget
  have hbyte : (List.replicate 64 byte).getD i 0 = byte := by
    rw [List.getD_eq_getElem?_getD, List.getElem?_replicate, if_pos (by omega)]
    rfl
  have hkey : k.getD i 0 = k[i] := by
    rw [List.getD_eq_getElem?_getD, List.getElem?_eq_getElem (by omega)]
    rfl
  rw [hget, List.getElem_map, hbyte, hkey, UInt8.xor_comm]

theorem digest_length : (Sha2.digest s).length = 32 := by
  simp [Sha2.digest, Words.toList]

theorem copy_key {key : List UInt8} (h : key.length ≤ 64) :
    copyInto (List.replicate 64 0) 0 key = some (key ++ List.replicate (64 - key.length) 0) := by
  rw [copy_into_eq (by simpa using h), List.take_zero, List.nil_append, List.drop_replicate,
    Nat.zero_add]

theorem sha256_eq (parts : List (List UInt8)) : sha256 parts = some (Sha2.sha256 parts.flatten) := by
  obtain ⟨h, hall, hx⟩ := update_all_absorbs absorbed_new parts
  rw [sha256, hall]
  exact finalize_absorbed hx

theorem hmac_key_eq (key : List UInt8) :
    hmacKey key = some (Sha2.blockKey key) ∧ (Sha2.blockKey key).length = 64 := by
  rw [hmacKey, Sha2.blockKey]
  split
  · have hlen : (Sha2.sha256 key).length = 32 := digest_length _
    have hhash := sha256_eq [key]
    rw [List.flatten_cons, List.flatten_nil, List.append_nil] at hhash
    rw [hhash, Option.bind_eq_bind, Option.bind_some]
    exact ⟨copy_key (by omega), by rw [List.length_append, List.length_replicate]; omega⟩
  · exact ⟨copy_key (by omega), by rw [List.length_append, List.length_replicate]; omega⟩

theorem hmac_eq (key : List UInt8) (parts : List (List UInt8)) :
    hmacSha256 key parts = some (Sha2.hmac key parts.flatten) := by
  obtain ⟨hkey, hlen⟩ := hmac_key_eq key
  obtain ⟨inner, hpad, hx⟩ := update_absorbs absorbed_new (xorPad 0x36 (Sha2.blockKey key))
  obtain ⟨inner', hparts, hx'⟩ := update_all_absorbs hx parts
  have hinner := finalize_absorbed hx'
  obtain ⟨outer, hpad', hy⟩ := update_absorbs absorbed_new (xorPad 0x5C (Sha2.blockKey key))
  obtain ⟨outer', hdigest, hy'⟩ := update_absorbs hy (Sha2.sha256
    ([] ++ xorPad 0x36 (Sha2.blockKey key) ++ parts.flatten))
  have houter := finalize_absorbed hy'
  rw [hmacSha256]
  simp only [hkey, hpad, hparts, hinner, hpad', hdigest, houter, Option.bind_eq_bind,
    Option.bind_some]
  rw [Sha2.hmac, xor_pad_eq hlen, xor_pad_eq hlen]
  rfl

end Keys

/-- Neither call panics, and the digest does not depend on how the input is split. -/
theorem hashing_follows_standards (key : List UInt8) (parts : List (List UInt8)) :
    sha256 parts = some (Sha2.sha256 parts.flatten) ∧
      hmacSha256 key parts = some (Sha2.hmac key parts.flatten) :=
  ⟨sha256_eq parts, hmac_eq key parts⟩

set_option maxRecDepth 10000 in
/-- The digest of `abc`, which the standard gives as an example. -/
example : sha256 [[0x61], [0x62, 0x63]] = some
    [0xba, 0x78, 0x16, 0xbf, 0x8f, 0x01, 0xcf, 0xea, 0x41, 0x41, 0x40, 0xde, 0x5d, 0xae, 0x22, 0x23,
      0xb0, 0x03, 0x61, 0xa3, 0x96, 0x17, 0x7a, 0x9c, 0xb4, 0x10, 0xff, 0x61, 0xf2, 0x00, 0x15,
      0xad] := by
  decide +kernel

end LibRtmp.Proofs
