import LibRtmp.Media.CodecConfig

namespace LibRtmp.Proofs

open CodecConfig

section Sets

variable {n : Nat} {record rest : List UInt8}

theorem skip_set_cons {u : List UInt8} (hne : u ≠ []) (hlen : u.length < 256 ^ 2)
    (rest : List UInt8) :
    LibRtmp.skipParamSet (Bytes.toBe 2 u.length ++ u ++ rest) = some rest := by
  have hcount := Bytes.of_be_to_be_lt hlen
  have hpos := List.length_pos_iff.mpr hne
  rw [List.append_assoc]
  simp only [Bytes.toBe, List.cons_append, List.nil_append] at hcount ⊢
  rw [LibRtmp.skipParamSet, hcount, if_neg, List.drop_left]
  simp only [List.length_append]
  omega

theorem skip_set_some (h : LibRtmp.skipParamSet record = some rest) :
    ∃ u : List UInt8, u ≠ [] ∧ u.length < 256 ^ 2 ∧
      record = Bytes.toBe 2 u.length ++ u ++ rest := by
  match record, h with
  | hi :: lo :: tail, h =>
    rw [LibRtmp.skipParamSet] at h
    have hlt := Bytes.of_be_lt [hi, lo]
    have hback := Bytes.to_be_of_be [hi, lo]
    generalize Bytes.ofBe [hi, lo] = len at h hlt hback
    split at h
    · cases h
    · rename_i hbad
      rw [not_or, Nat.not_lt] at hbad
      cases h
      have hlen : (tail.take len).length = len := List.length_take_of_le hbad.2
      refine ⟨tail.take len, ?_, by rw [hlen]; exact hlt, ?_⟩
      · intro hnil
        rw [hnil] at hlen
        exact hbad.1 hlen.symm
      · rw [hlen, List.append_assoc, List.take_append_drop]
        exact (congrArg (fun l => l ++ tail) hback).symm

/-- Skipping parameter sets is having them in front. -/
theorem skip_sets_iff : LibRtmp.skipParamSets n record = some rest ↔
    ∃ sets : ParamSets, sets.count = n ∧ record = sets.bytes ++ rest := by
  constructor
  · intro h
    induction n generalizing record with
    | zero =>
      cases h
      exact ⟨⟨[], by simp, by simp⟩, rfl, rfl⟩
    | succ n ih =>
      obtain ⟨mid, hset, htail⟩ := Option.bind_eq_some_iff.mp h
      obtain ⟨u, hne, hlen, rfl⟩ := skip_set_some hset
      obtain ⟨sets, rfl, rfl⟩ := ih htail
      refine ⟨⟨u :: sets.units, ?_, ?_⟩, rfl, ?_⟩
      · exact List.forall_mem_cons.mpr ⟨hne, sets.nonempty⟩
      · exact List.forall_mem_cons.mpr ⟨hlen, sets.sized⟩
      · simp [ParamSets.bytes]
  · rintro ⟨⟨units, hne, hlen⟩, rfl, rfl⟩
    induction units with
    | nil => rfl
    | cons u units ih =>
      obtain ⟨hu, hne⟩ := List.forall_mem_cons.mp hne
      obtain ⟨hl, hlen⟩ := List.forall_mem_cons.mp hlen
      have hbytes : ParamSets.bytes ⟨u :: units, List.forall_mem_cons.mpr ⟨hu, hne⟩,
          List.forall_mem_cons.mpr ⟨hl, hlen⟩⟩ ++ rest =
            Bytes.toBe 2 u.length ++ u ++ (ParamSets.bytes ⟨units, hne, hlen⟩ ++ rest) := by
        simp [ParamSets.bytes]
      rw [hbytes, ParamSets.count, List.length_cons, LibRtmp.skipParamSets,
        skip_set_cons hu hl, Option.bind_some]
      exact ih hne hlen

end Sets

section Avc

variable {record ext : List UInt8}

theorem avc_extension_iff : LibRtmp.validateAvcExtension ext = true ↔ AvcExtension ext := by
  match ext with
  | [] => exact iff_of_true rfl .absent
  | [a] => exact iff_of_false (by simp [LibRtmp.validateAvcExtension]) nofun
  | [a, b] => exact iff_of_false (by simp [LibRtmp.validateAvcExtension]) nofun
  | [a, b, c] => exact iff_of_false (by simp [LibRtmp.validateAvcExtension]) nofun
  | a :: b :: c :: k :: tail =>
    rw [LibRtmp.validateAvcExtension, if_neg (by simp)]
    change (LibRtmp.skipParamSets k.toNat tail).isSome = true ↔ _
    rw [Option.isSome_iff_exists]
    constructor
    · rintro ⟨rest, h⟩
      obtain ⟨sets, hcount, rfl⟩ := skip_sets_iff.mp h
      exact .present a b c k sets hcount rest
    · intro h
      cases h with
      | present _ _ _ _ sets hcount rest => exact ⟨rest, skip_sets_iff.mpr ⟨sets, hcount, rfl⟩⟩

/-- The validator takes exactly the well-formed records. -/
theorem avc_record_iff : LibRtmp.validateAvcRecord record = true ↔ AvcRecord record := by
  constructor
  · intro h
    unfold LibRtmp.validateAvcRecord at h
    split at h
    · cases h
    rename_i hfixed
    rw [not_or, Nat.not_lt, not_not] at hfixed
    match record, hfixed.1 with
    | v :: profile :: compatibility :: level :: lengthSize :: flags :: tail, _ =>
      have hversion : v = 1 := hfixed.2
      subst hversion
      dsimp only at h
      split at h
      · cases h
      rename_i hsps
      split at h
      · rename_i k mid hskip
        split at h
        · cases h
        rename_i hk
        obtain ⟨ext, hskip', hext⟩ := (Option.any_eq_true _ _).mp h
        obtain ⟨sps, hcount, rfl⟩ := skip_sets_iff.mp hskip
        obtain ⟨pps, hcount', rfl⟩ := skip_sets_iff.mp hskip'
        refine .mk profile compatibility level lengthSize flags k sps pps hcount ?_ hcount' ?_
          (avc_extension_iff.mp hext)
        · rw [hcount]
          exact Nat.pos_of_ne_zero hsps
        · rw [hcount']
          exact Nat.pos_of_ne_zero fun hzero => hk (UInt8.toNat_inj.mp hzero)
      · cases h
  · intro h
    cases h with
    | @mk profile compatibility level lengthSize flags k sps pps hsps hsome hpps hsome' ext hext =>
      have hskip : LibRtmp.skipParamSets (flags.toNat % 32)
          (sps.bytes ++ k :: (pps.bytes ++ ext)) = some (k :: (pps.bytes ++ ext)) :=
        skip_sets_iff.mpr ⟨sps, hsps, rfl⟩
      have hskip' : LibRtmp.skipParamSets k.toNat (pps.bytes ++ ext) = some ext :=
        skip_sets_iff.mpr ⟨pps, hpps, rfl⟩
      have hk : k ≠ 0 := by
        rintro rfl
        rw [hpps] at hsome'
        cases hsome'
      rw [LibRtmp.validateAvcRecord, if_neg (by simp; omega)]
      simp only [List.getD_cons_succ, List.getD_cons_zero, List.drop_succ_cons, List.drop_zero]
      rw [if_neg (by omega), hskip]
      dsimp only
      rw [if_neg hk, hskip', Option.any_some]
      exact avc_extension_iff.mpr hext

end Avc

section Hevc

variable {record : List UInt8}

def countArray (counts : Nat × Nat) (a : NalArray) : Nat × Nat :=
  if a.nalType = hevcNalSps then (counts.1 + a.sets.count, counts.2)
  else if a.nalType = hevcNalPps then (counts.1, counts.2 + a.sets.count)
  else counts

def countArrays (arrays : List NalArray) (counts : Nat × Nat) : Nat × Nat :=
  arrays.foldl countArray counts

/-- The loop over the arrays recognises lists of arrays. -/
theorem hevc_arrays_iff {n : Nat} {counts found : Nat × Nat} :
    LibRtmp.hevcArrays n counts record = some found ↔ ∃ (arrays : List NalArray) (rest : List UInt8),
      arrays.length = n ∧ record = arrays.flatMap NalArray.bytes ++ rest ∧
        found = countArrays arrays counts := by
  constructor
  · intro h
    induction n generalizing counts record with
    | zero =>
      cases h
      exact ⟨[], record, rfl, rfl, rfl⟩
    | succ n ih =>
      match record, h with
      | hdr :: hi :: lo :: tail, h =>
        obtain ⟨rest, hskip, hrest⟩ := Option.bind_eq_some_iff.mp h
        obtain ⟨sets, hcount, rfl⟩ := skip_sets_iff.mp hskip
        obtain ⟨arrays, left, rfl, rfl, rfl⟩ := ih hrest
        have hlt : sets.count < 256 ^ 2 := hcount ▸ Bytes.of_be_lt [hi, lo]
        refine ⟨⟨hdr, sets, hlt⟩ :: arrays, left, rfl, ?_, ?_⟩
        · have hback : Bytes.toBe 2 (Bytes.ofBe [hi, lo]) = [hi, lo] := Bytes.to_be_of_be [hi, lo]
          simp [NalArray.bytes, hcount, hback]
        · rw [← hcount]
          rfl
  · rintro ⟨arrays, rest, rfl, rfl, rfl⟩
    induction arrays generalizing counts with
    | nil => rfl
    | cons a arrays ih =>
      have hcount := Bytes.of_be_to_be_lt a.counted
      simp only [Bytes.toBe] at hcount
      have hskip : LibRtmp.skipParamSets a.sets.count
          (a.sets.bytes ++ (arrays.flatMap NalArray.bytes ++ rest)) =
            some (arrays.flatMap NalArray.bytes ++ rest) :=
        skip_sets_iff.mpr ⟨a.sets, rfl, rfl⟩
      simp only [List.flatMap_cons, NalArray.bytes, Bytes.toBe, List.length_cons, List.cons_append,
        List.nil_append, List.append_assoc, LibRtmp.hevcArrays, hcount, hskip, Option.bind_some]
      exact ih

theorem counts_array (counts : Nat × Nat) (a : NalArray) :
    (0 < (countArray counts a).1 ↔ 0 < counts.1 ∨ a.nalType = hevcNalSps ∧ 1 ≤ a.sets.count) ∧
      (0 < (countArray counts a).2 ↔
        0 < counts.2 ∨ a.nalType = hevcNalPps ∧ 1 ≤ a.sets.count) := by
  have hkinds : hevcNalSps ≠ hevcNalPps := by decide
  unfold countArray
  split
  · rename_i htype
    simp only [htype, hkinds, true_and, false_and, or_false, and_true]
    omega
  split
  · rename_i htype
    simp only [htype, hkinds.symm, true_and, false_and, or_false]
    omega
  · rename_i hsps hpps
    simp [hsps, hpps]

theorem has_unit_cons (nalType : Nat) (a : NalArray) (arrays : List NalArray) :
    HasUnit nalType (a :: arrays) ↔
      (a.nalType = nalType ∧ 1 ≤ a.sets.count) ∨ HasUnit nalType arrays := by
  simp only [HasUnit, List.exists_mem_cons_iff]

theorem counted_iff (arrays : List NalArray) (counts : Nat × Nat) :
    (0 < (countArrays arrays counts).1 ↔ 0 < counts.1 ∨ HasUnit hevcNalSps arrays) ∧
      (0 < (countArrays arrays counts).2 ↔ 0 < counts.2 ∨ HasUnit hevcNalPps arrays) := by
  induction arrays generalizing counts with
  | nil => simp [countArrays, HasUnit]
  | cons a arrays ih =>
    obtain ⟨hsps, hpps⟩ := ih (countArray counts a)
    obtain ⟨hone, hone'⟩ := counts_array counts a
    rw [has_unit_cons, has_unit_cons, ← or_assoc, ← or_assoc, ← hone, ← hone']
    exact ⟨hsps, hpps⟩

/-- The validator takes exactly the well-formed records. -/
theorem hevc_record_iff : LibRtmp.validateHevcRecord record = true ↔ HevcRecord record := by
  constructor
  · intro h
    unfold LibRtmp.validateHevcRecord at h
    split at h
    · cases h
    rename_i hfixed
    rw [not_or, Nat.not_le, not_not] at hfixed
    obtain ⟨counts, hwalk, hcounts⟩ := (Option.any_eq_true _ _).mp h
    obtain ⟨arrays, rest, hcount, hrecord, rfl⟩ := hevc_arrays_iff.mp hwalk
    simp only [Bool.and_eq_true, decide_eq_true_eq] at hcounts
    match record, hfixed.1 with
    | v :: tail, hlong =>
      have hversion : v = 1 := hfixed.2
      subst hversion
      rw [List.length_cons] at hlong
      have hk : 21 < tail.length := by omega
      have hsplit : tail = tail.take 21 ++ tail[21] :: tail.drop 22 := by
        rw [← List.drop_eq_getElem_cons hk, List.take_append_drop]
      have hget : (1 :: tail).getD 22 0 = tail[21] := by
        simp [List.getD_eq_getElem?_getD, List.getElem?_eq_getElem hk]
      rw [hget] at hcount
      have hrest : tail.drop 22 = arrays.flatMap NalArray.bytes ++ rest := hrecord
      rw [hrest] at hsplit
      rw [hsplit]
      have hsps := ((counted_iff arrays (0, 0)).1.mp hcounts.1).resolve_left (Nat.lt_irrefl 0)
      have hpps := ((counted_iff arrays (0, 0)).2.mp hcounts.2).resolve_left (Nat.lt_irrefl 0)
      exact .mk (List.length_take_of_le (by omega)) _ arrays hcount hsps hpps rest
  · intro h
    cases h with
    | @mk fixed hfixed k arrays hcount hsps hpps rest =>
      have hget : (1 :: (fixed ++ k :: (arrays.flatMap NalArray.bytes ++ rest))).getD 22 0 = k := by
        simp [List.getD_eq_getElem?_getD, hfixed]
      have hdrop : (1 :: (fixed ++ k :: (arrays.flatMap NalArray.bytes ++ rest))).drop 23 =
          arrays.flatMap NalArray.bytes ++ rest := by
        have hsplit : fixed ++ k :: (arrays.flatMap NalArray.bytes ++ rest) =
            (fixed ++ [k]) ++ (arrays.flatMap NalArray.bytes ++ rest) := by simp
        rw [List.drop_succ_cons, hsplit]
        exact List.drop_left' (by simp [hfixed])
      have hwalk : LibRtmp.hevcArrays k.toNat (0, 0) (arrays.flatMap NalArray.bytes ++ rest) =
          some (countArrays arrays (0, 0)) := hevc_arrays_iff.mpr ⟨arrays, rest, hcount, rfl, rfl⟩
      rw [LibRtmp.validateHevcRecord, if_neg (by simp; omega), hget, hdrop, hwalk, Option.any_some,
        Bool.and_eq_true, decide_eq_true_eq, decide_eq_true_eq]
      exact ⟨(counted_iff arrays (0, 0)).1.mpr (.inr hsps),
        (counted_iff arrays (0, 0)).2.mpr (.inr hpps)⟩

end Hevc

section Positions

variable {record : List UInt8} {pos : Nat}

structure At (record : List UInt8) (pos : Option Nat) (rest : Option (List UInt8)) : Prop where
  rest : pos.map (fun p => record.drop p) = rest
  inside : ∀ p ∈ pos, p ≤ record.length

/-- Skipping by position is skipping on the rest of the record. -/
theorem skip_set_at (hlen : record.length ≤ isizeMax) (hpos : pos ≤ record.length) :
    At record (CodecConfig.skipParamSet record pos) (LibRtmp.skipParamSet (record.drop pos)) := by
  have hmax : isizeMax + 65538 ≤ usizeMax := by
    unfold isizeMax usizeMax
    omega
  have hadd {a b : Nat} (h : a + b ≤ usizeMax) : checkedAdd a b = some (a + b) := if_pos h
  have hhi : record[pos]? = (record.drop pos)[0]? := by rw [List.getElem?_drop, Nat.add_zero]
  have hlo : record[pos + 1]? = (record.drop pos)[1]? := by rw [List.getElem?_drop]
  have hleft : (record.drop pos).length = record.length - pos := List.length_drop
  have hdrop (n : Nat) : record.drop (pos + n) = (record.drop pos).drop n := List.drop_drop.symm
  rw [CodecConfig.skipParamSet, hadd (a := pos) (b := 2) (by omega), hhi, hlo]
  generalize record.drop pos = d at hleft hdrop ⊢
  match d with
  | [] => exact ⟨rfl, nofun⟩
  | [a] => exact ⟨rfl, nofun⟩
  | hi :: lo :: tail =>
    have hlt : Bytes.ofBe [hi, lo] < 256 ^ 2 := Bytes.of_be_lt [hi, lo]
    simp only [Option.bind_eq_bind, Option.bind_some, List.getElem?_cons_zero,
      List.getElem?_cons_succ, LibRtmp.skipParamSet]
    generalize Bytes.ofBe [hi, lo] = len at hlt ⊢
    simp only [List.length_cons] at hleft
    by_cases hzero : len = 0
    · rw [if_pos hzero, if_pos (.inl hzero)]
      exact ⟨rfl, nofun⟩
    rw [if_neg hzero, hadd (by omega), Option.bind_some]
    by_cases hfits : tail.length < len
    · rw [if_neg (by omega), if_pos (.inr hfits)]
      exact ⟨rfl, nofun⟩
    · rw [if_pos (by omega), if_neg (by omega)]
      refine ⟨?_, fun p hp => ?_⟩
      · rw [Option.map_some, Nat.add_assoc, hdrop, Nat.add_comm 2]
        rfl
      · cases hp
        omega

theorem skip_sets_at (hlen : record.length ≤ isizeMax) (n pos : Nat) (hpos : pos ≤ record.length) :
    At record (CodecConfig.skipParamSets record n pos)
      (LibRtmp.skipParamSets n (record.drop pos)) := by
  induction n generalizing pos with
  | zero => exact ⟨rfl, fun p hp => by cases hp; exact hpos⟩
  | succ n ih =>
    obtain ⟨hrest, hinside⟩ := skip_set_at hlen hpos
    rw [CodecConfig.skipParamSets, LibRtmp.skipParamSets, ← hrest]
    cases hset : CodecConfig.skipParamSet record pos with
    | none => exact ⟨rfl, nofun⟩
    | some next => exact ih next (hinside next hset)

theorem avc_extension_at {ext : List UInt8} (hlen : ext.length ≤ isizeMax) :
    CodecConfig.validateAvcExtension ext = LibRtmp.validateAvcExtension ext := by
  unfold CodecConfig.validateAvcExtension LibRtmp.validateAvcExtension
  split
  · rfl
  cases hk : ext[3]? with
  | none => rfl
  | some k =>
    obtain ⟨hthere, -⟩ := List.getElem?_eq_some_iff.mp hk
    dsimp only
    rw [← (skip_sets_at hlen k.toNat 4 hthere).rest, Option.isSome_map]

/-- On a slice the validator does not read out of bounds, and answers as on what is left. -/
theorem avc_record_at (hlen : record.length ≤ isizeMax) :
    CodecConfig.validateAvcRecord record = some (LibRtmp.validateAvcRecord record) := by
  unfold CodecConfig.validateAvcRecord LibRtmp.validateAvcRecord
  by_cases hshort : record.length < 7
  · rw [if_pos hshort, if_pos (.inl hshort)]
  have hget (i : Nat) (hi : i < 7) : record[i]? = some (record.getD i 0) := by
    rw [List.getD_eq_getElem?_getD, List.getElem?_eq_getElem (by omega)]
    rfl
  rw [if_neg hshort, hget 0 (by omega), hget 5 (by omega)]
  simp only [Option.bind_eq_bind, Option.bind_some, hshort, false_or]
  split
  · rfl
  split
  · rfl
  generalize (record.getD 5 0).toNat % 32 = numSps
  obtain ⟨hrest, hinside⟩ := skip_sets_at hlen numSps 6 (by omega)
  rw [← hrest]
  cases hpos : CodecConfig.skipParamSets record numSps 6 with
  | none => rfl
  | some pos =>
    have hle := hinside pos hpos
    have hnext : record[pos]? = (record.drop pos)[0]? := by rw [List.getElem?_drop, Nat.add_zero]
    have hdrop : record.drop (pos + 1) = (record.drop pos).drop 1 := List.drop_drop.symm
    have hleft : (record.drop pos).length = record.length - pos := List.length_drop
    dsimp only [Option.map_some]
    rw [hnext]
    generalize record.drop pos = d at hdrop hleft ⊢
    cases d with
    | nil => rfl
    | cons numPps tail =>
      rw [List.length_cons] at hleft
      dsimp only [List.getElem?_cons_zero]
      split
      · rfl
      obtain ⟨hrest, hinside⟩ := skip_sets_at hlen numPps.toNat (pos + 1) (by omega)
      rw [hdrop] at hrest
      rw [show tail = (numPps :: tail).drop 1 from rfl, ← hrest]
      cases hpos' : CodecConfig.skipParamSets record numPps.toNat (pos + 1) with
      | none => rfl
      | some stop =>
        have hstop := hinside stop hpos'
        dsimp only [Option.map_some, Option.any_some]
        rw [sliceRange, if_pos ⟨hstop, Nat.le_refl _⟩, List.take_length, Option.bind_some,
          avc_extension_at (by rw [List.length_drop]; omega)]

theorem hevc_units_at (hlen : record.length ≤ isizeMax) (nalType n pos : Nat)
    (hpos : pos ≤ record.length) (counts : Nat × Nat) :
    hevcUnits record nalType n pos counts = (CodecConfig.skipParamSets record n pos).map
      (fun stop => (stop, (countNal nalType)^[n] counts)) := by
  induction n generalizing pos counts with
  | zero => rfl
  | succ n ih =>
    rw [hevcUnits, CodecConfig.skipParamSets]
    obtain ⟨-, hinside⟩ := skip_set_at hlen hpos
    cases hset : CodecConfig.skipParamSet record pos with
    | none => rfl
    | some next => exact ih next (hinside next hset) _

theorem count_nals (nalType n : Nat) (counts : Nat × Nat) : (countNal nalType)^[n] counts =
    if nalType = hevcNalSps then (counts.1 + n, counts.2)
    else if nalType = hevcNalPps then (counts.1, counts.2 + n)
    else (counts.1, counts.2) := by
  induction n generalizing counts with
  | zero => simp
  | succ n ih =>
    rw [Function.iterate_succ_apply, ih, countNal]
    split
    · rw [Nat.add_assoc, Nat.add_comm 1]
    split
    · rw [Nat.add_assoc, Nat.add_comm 1]
    · rfl

theorem hevc_arrays_at (hlen : record.length ≤ isizeMax) (n pos : Nat)
    (hpos : pos ≤ record.length) (counts : Nat × Nat) :
    CodecConfig.hevcArrays record n pos counts =
      LibRtmp.hevcArrays n counts (record.drop pos) := by
  induction n generalizing pos counts with
  | zero => rfl
  | succ n ih =>
    have hget (i : Nat) : record[pos + i]? = (record.drop pos)[i]? := by rw [List.getElem?_drop]
    have hdrop : record.drop (pos + 3) = (record.drop pos).drop 3 := List.drop_drop.symm
    have hleft : (record.drop pos).length = record.length - pos := List.length_drop
    rw [CodecConfig.hevcArrays, ← Nat.add_zero pos, hget 0, Nat.add_zero, hget 1, hget 2]
    generalize record.drop pos = d at hdrop hleft ⊢
    match d with
    | [] => rfl
    | [a] => rfl
    | [a, b] => rfl
    | hdr :: hi :: lo :: tail =>
      simp only [List.length_cons] at hleft
      have hthree : pos + 3 ≤ record.length := by omega
      obtain ⟨hrest, hinside⟩ := skip_sets_at hlen (Bytes.ofBe [hi, lo]) (pos + 3) hthree
      rw [hdrop] at hrest
      simp only [List.getElem?_cons_zero, List.getElem?_cons_succ, Option.bind_eq_bind,
        Option.bind_some, hevc_units_at hlen _ _ _ hthree, LibRtmp.hevcArrays]
      rw [show tail = (hdr :: hi :: lo :: tail).drop 3 from rfl, ← hrest]
      cases hpos' : CodecConfig.skipParamSets record (Bytes.ofBe [hi, lo]) (pos + 3) with
      | none => rfl
      | some stop =>
        simp only [Option.map_some, Option.bind_some, count_nals]
        exact ih stop (hinside stop hpos') _

theorem hevc_record_at (hlen : record.length ≤ isizeMax) :
    CodecConfig.validateHevcRecord record = some (LibRtmp.validateHevcRecord record) := by
  unfold CodecConfig.validateHevcRecord LibRtmp.validateHevcRecord
  by_cases hshort : record.length ≤ 22
  · rw [if_pos hshort, if_pos (.inl hshort)]
  have hget (i : Nat) (hi : i < 23) : record[i]? = some (record.getD i 0) := by
    rw [List.getD_eq_getElem?_getD, List.getElem?_eq_getElem (by omega)]
    rfl
  rw [if_neg hshort, hget 0 (by omega), hget 22 (by omega)]
  simp only [Option.bind_eq_bind, Option.bind_some, hshort, false_or]
  split
  · rfl
  rw [hevc_arrays_at hlen _ 23 (by omega)]
  cases LibRtmp.hevcArrays (record.getD 22 0).toNat (0, 0) (record.drop 23) <;> rfl

end Positions

/-- A validator neither reads outside the record nor takes anything but the records that are
meant, whatever counts and lengths they declare. -/
theorem config_records_accepted_exactly (record : List UInt8) (hlen : record.length ≤ isizeMax) :
    (∃ accepted, CodecConfig.validateAvcRecord record = some accepted ∧
      (accepted = true ↔ AvcRecord record)) ∧
    (∃ accepted, CodecConfig.validateHevcRecord record = some accepted ∧
      (accepted = true ↔ HevcRecord record)) :=
  ⟨⟨_, avc_record_at hlen, avc_record_iff⟩, ⟨_, hevc_record_at hlen, hevc_record_iff⟩⟩

def smallAvcRecord : List UInt8 :=
  [1, 0x64, 0, 0x1F, 0xFF, 0xE1, 0, 2, 0x67, 0x64, 1, 0, 1, 0x68]

theorem small_avc_record_accepted :
    CodecConfig.validateAvcRecord smallAvcRecord = some true ∧ AvcRecord smallAvcRecord := by
  obtain ⟨⟨accepted, hcall, hiff⟩, -⟩ :=
    config_records_accepted_exactly smallAvcRecord (by decide)
  have hsome : CodecConfig.validateAvcRecord smallAvcRecord = some true := by decide +kernel
  rw [hsome] at hcall
  cases hcall
  exact ⟨hsome, hiff.mp rfl⟩

end LibRtmp.Proofs
