import LibRtmp.Ertmp.InfoMap

namespace LibRtmp.Proofs

open Actions Ertmp

variable (legacyKeyOnly : Bool)

section Walking

variable {extra n : Nat} {rs : List MapRecord} {data rest : List UInt8}

theorem probed_split {r : MapRecord} (h : r.Probed extra) (tail : List UInt8) :
    let data := r.bytes ++ tail
    ¬ data.length < 2 ∧ Bytes.ofBe (data.take 2) = r.key.length ∧
      data.drop 2 = r.key ++ (r.extra ++ tail) := by
  have hlen : r.key.length < 256 ^ 2 := by
    rcases h.key with h | h <;> omega
  have hbytes : r.bytes ++ tail =
      Bytes.toBe 2 r.key.length ++ (r.key ++ (r.extra ++ tail)) := by
    simp [MapRecord.bytes, countedName]
  dsimp only
  rw [hbytes]
  refine ⟨?_, ?_, ?_⟩
  · rw [List.length_append, Bytes.to_be_length]
    omega
  · rw [List.take_left' (by simp), Bytes.of_be_to_be_lt hlen]
  · exact List.drop_left' (by simp)

/-- The probe passes over records of its layout. -/
theorem walk_records (h : ∀ r ∈ rs, r.Probed extra) (rest : List UInt8) :
    walkEntries extra rs.length (rs.flatMap MapRecord.bytes ++ rest) = some rest := by
  induction rs with
  | nil => rfl
  | cons r rs ih =>
    have hr := h r List.mem_cons_self
    obtain ⟨hlen, hcount, hdrop⟩ := probed_split hr (rs.flatMap MapRecord.bytes ++ rest)
    rw [List.flatMap_cons, List.append_assoc, List.length_cons, walkEntries, if_neg hlen,
      hcount, hdrop, if_neg]
    · have hskip : (r.key ++ (r.extra ++ (rs.flatMap MapRecord.bytes ++ rest))).drop
          (r.key.length + extra) = rs.flatMap MapRecord.bytes ++ rest := by
        rw [← List.append_assoc]
        exact List.drop_left' (by simp [hr.extra])
      rw [hskip]
      exact ih fun q hq => h q (List.mem_cons_of_mem _ hq)
    · have hkey := hr.key
      have hextra := hr.extra
      simp only [List.length_append]
      omega

/-- The front of some bytes, taken as a counted name. -/
theorem counted_front {data : List UInt8} {slen : Nat} (hslen : Bytes.ofBe (data.take 2) = slen)
    (htwo : ¬ data.length < 2) (hfits : ¬ (data.drop 2).length < slen) :
    data = countedName ((data.drop 2).take slen) ++ (data.drop 2).drop slen := by
  have hlen : ((data.drop 2).take slen).length = slen := by
    simp only [List.length_take, List.length_drop] at hfits ⊢
    omega
  have hhead : Bytes.toBe 2 slen = data.take 2 := by
    have htake : (data.take 2).length = 2 := by
      simp only [List.length_take]
      omega
    have hback := Bytes.to_be_of_be (data.take 2)
    rwa [htake, hslen] at hback
  rw [countedName, hlen, hhead]
  simp only [List.append_assoc, List.take_append_drop]

/-- What the probe passes over are records of its layout. -/
theorem walk_sound (h : walkEntries extra n data = some rest) :
    ∃ rs : List MapRecord, rs.length = n ∧ (∀ r ∈ rs, r.Probed extra) ∧
      data = rs.flatMap MapRecord.bytes ++ rest := by
  induction n generalizing data with
  | zero =>
    cases h
    exact ⟨[], rfl, by simp, rfl⟩
  | succ n ih =>
    rw [walkEntries] at h
    generalize hslen : Bytes.ofBe (data.take 2) = slen at h
    split at h
    · cases h
    split at h
    · cases h
    rename_i hshort hfits
    obtain ⟨rs, hcount, hrs, hdata⟩ := ih h
    simp only [List.length_drop] at hfits
    let r : MapRecord := ⟨(data.drop 2).take slen, ((data.drop 2).drop slen).take extra⟩
    have hkey : r.key.length = slen := by
      simp only [r, List.length_take, List.length_drop]
      omega
    have hextra : r.extra.length = extra := by
      simp only [r, List.length_take, List.length_drop]
      omega
    have hsplit : data = r.bytes ++ (data.drop 2).drop (slen + extra) := by
      have hfront := counted_front hslen hshort (by rw [List.length_drop]; omega)
      rw [← List.drop_drop, MapRecord.bytes, List.append_assoc, List.take_append_drop]
      exact hfront
    refine ⟨r :: rs, by simp [hcount], ?_, ?_⟩
    · intro q hq
      rcases List.mem_cons.mp hq with rfl | hq
      · exact ⟨by omega, hextra⟩
      · exact hrs q hq
    · rw [List.flatMap_cons, List.append_assoc, ← hdata]
      exact hsplit

/-- A record takes at most 6 bytes without a mask, and at least 7 with one. -/
theorem records_length (h : ∀ r ∈ rs, r.Probed extra) :
    rs.length * (3 + extra) ≤ (rs.flatMap MapRecord.bytes).length ∧
      (rs.flatMap MapRecord.bytes).length ≤ rs.length * (6 + extra) := by
  induction rs with
  | nil => simp
  | cons r rs ih =>
    have hr := h r List.mem_cons_self
    have hkey := hr.key
    have hextra := hr.extra
    have htail := ih fun q hq => h q (List.mem_cons_of_mem _ hq)
    have hbytes : r.bytes.length = 2 + r.key.length + r.extra.length := by
      simp [MapRecord.bytes, countedName]
      omega
    rw [List.flatMap_cons, List.length_append, List.length_cons, Nat.add_mul, Nat.add_mul]
    omega

/-- The same bytes are never records of both layouts. -/
theorem layouts_disjoint (hn : 1 ≤ n) (hkeys : walkEntries 0 n data = some [])
    (hmasks : walkEntries 4 n data = some []) : False := by
  obtain ⟨ks, hks, hk, rfl⟩ := walk_sound hkeys
  obtain ⟨ms, hms, hm, hsame⟩ := walk_sound hmasks
  have hshort := (records_length hk).2
  have hlong := (records_length hm).1
  rw [List.append_nil, List.append_nil] at hsame
  rw [hsame, hks] at hshort
  rw [hms] at hlong
  omega

end Walking

section Reading

variable {legacyKeyOnly : Bool} {rs : List MapRecord}

theorem fourcc_entry_some {key : List UInt8} (h : key.length = 1 ∨ key.length = 4) :
    (fourccEntry key).isSome = true ↔ key = [0x2A] ∨ key.length = 4 := by
  unfold fourccEntry
  split
  · rename_i hstar
    simp [hstar]
  · rename_i hstar
    rcases h with h | h
    · obtain ⟨a, rfl⟩ := List.length_eq_one_iff.mp h
      simpa [FourCc.read] using hstar
    · match key, h with
      | [a, b, c, d], _ => simp [FourCc.read]

/-- Reading a record gives its entry, or stops at a name of one byte that is not the wildcard. -/
theorem entries_cons {r : MapRecord} (h : r.Probed (maskSize legacyKeyOnly)) (n : Nat)
    (tail : List UInt8) (s : Buffer × VideoFourCcInfoMap) :
    Action.on (videoFourccInfoMapEntries legacyKeyOnly (n + 1) (r.bytes ++ tail)) s =
      match r.entry legacyKeyOnly with
      | none => (.error .io, s)
      | some e =>
        Action.on (videoFourccInfoMapEntries legacyKeyOnly n tail) (s.1, s.2 ++ [e]) := by
  obtain ⟨hlen, hcount, hdrop⟩ := probed_split h tail
  have hkey := h.key
  have hextra := h.extra
  rw [videoFourccInfoMapEntries, if_neg hlen, hcount, hdrop, if_neg, List.take_left,
    List.drop_left, MapRecord.entry]
  · cases fourccEntry r.key with
    | none => rfl
    | some cc =>
      cases legacyKeyOnly with
      | true =>
        have hnone : r.extra = [] := List.eq_nil_of_length_eq_zero hextra
        rw [hnone]
        rfl
      | false =>
        have hfour : r.extra.length = 4 := hextra
        dsimp only
        rw [if_neg (by simp), if_neg (by simp [hfour]), List.take_left' hfour,
          List.drop_left' hfour]
        rfl
  · simp only [List.length_append]
    omega

theorem entries_read {es : List (FourCc × UInt32)}
    (h : ∀ r ∈ rs, r.Probed (maskSize legacyKeyOnly))
    (hes : rs.map (MapRecord.entry legacyKeyOnly) = es.map some)
    (s : Buffer × VideoFourCcInfoMap) :
    Action.on (videoFourccInfoMapEntries legacyKeyOnly rs.length (rs.flatMap MapRecord.bytes)) s =
      (.ok ⟨⟩, (s.1, s.2 ++ es)) := by
  induction rs generalizing es s with
  | nil =>
    cases es with
    | nil => simp [videoFourccInfoMapEntries]
    | cons => cases hes
  | cons r rs ih =>
    cases es with
    | nil => cases hes
    | cons e es =>
      obtain ⟨he, hes⟩ := List.cons.inj hes
      rw [List.flatMap_cons, List.length_cons, entries_cons (h r List.mem_cons_self), he]
      dsimp only
      rw [ih (fun q hq => h q (List.mem_cons_of_mem _ hq)) hes, List.append_assoc]
      rfl

theorem entries_accepted (h : ∀ r ∈ rs, r.Probed (maskSize legacyKeyOnly))
    (s : Buffer × VideoFourCcInfoMap)
    (hok : (Action.on (videoFourccInfoMapEntries legacyKeyOnly rs.length
      (rs.flatMap MapRecord.bytes)) s).1 = .ok ⟨⟩) :
    ∀ r ∈ rs, r.Of (maskSize legacyKeyOnly) := by
  induction rs generalizing s with
  | nil => simp
  | cons r rs ih =>
    have hr := h r List.mem_cons_self
    rw [List.flatMap_cons, List.length_cons, entries_cons hr] at hok
    cases he : r.entry legacyKeyOnly with
    | none =>
      rw [he] at hok
      cases hok
    | some e =>
      rw [he] at hok
      have hsome : (fourccEntry r.key).isSome = true := by
        rw [MapRecord.entry, Option.map_eq_some_iff] at he
        obtain ⟨cc, hcc, -⟩ := he
        rw [hcc]
        rfl
      refine List.forall_mem_cons.mpr ⟨⟨(fourcc_entry_some hr.key).mp hsome, hr.extra⟩, ?_⟩
      exact ih (fun q hq => h q (List.mem_cons_of_mem _ hq)) _ hok

/-- What a string with this count is read as. -/
theorem map_parse_counted {n : Nat} (hn : n ≤ maxFourccs) (rest : List UInt8)
    (s : Buffer × VideoFourCcInfoMap) :
    Action.on (videoFourccInfoMapParse (Bytes.toBe 4 n ++ rest)) s =
      if walkEntries 4 n rest = some [] then
        Action.on (videoFourccInfoMapEntries false n rest) (s.1, [])
      else if walkEntries 0 n rest = some [] then
        Action.on (videoFourccInfoMapEntries true n rest) (s.1, [])
      else (.error .io, (s.1, [])) := by
  have hcount : min (Bytes.ofBe (Bytes.toBe 4 n)) maxFourccs = n := by
    have hlt : n < 256 ^ 4 := Nat.lt_of_le_of_lt hn (by decide)
    rw [Bytes.of_be_to_be_lt hlt]
    exact Nat.min_eq_left hn
  rw [videoFourccInfoMapParse, if_neg (by simp), Action.on_bind, on_filling]
  dsimp only
  rw [List.take_left' (by simp), List.drop_left' (by simp), hcount]
  split
  · rfl
  · split <;> rfl

end Reading

section Writing

variable {map : VideoFourCcInfoMap}

def recordOf (legacyKeyOnly : Bool) (e : FourCc × UInt32) : MapRecord :=
  ⟨fourccEntryBytes e.1, if legacyKeyOnly then [] else Bytes.toBe 4 e.2.toNat⟩

theorem entry_bytes_length (cc : FourCc) :
    (fourccEntryBytes cc).length = 1 ∨ (fourccEntryBytes cc).length = 4 := by
  unfold fourccEntryBytes
  split
  · exact .inl rfl
  · exact .inr rfl

theorem records_probed (map : VideoFourCcInfoMap) :
    ∀ r ∈ map.map (recordOf legacyKeyOnly), r.Probed (maskSize legacyKeyOnly) := by
  intro r hr
  obtain ⟨e, -, rfl⟩ := List.mem_map.mp hr
  refine ⟨entry_bytes_length e.1, ?_⟩
  cases legacyKeyOnly
  · exact Bytes.to_be_length 4 _
  · rfl

theorem plain_entry_read {cc : FourCc} (h : PlainEntry cc) :
    fourccEntry (fourccEntryBytes cc) = some cc := by
  rcases h with rfl | h
  · rfl
  · rw [fourccEntryBytes, if_neg h, fourccEntry, if_neg (by simp [FourCc.bytes])]
    rfl

theorem u32_of_be_to_be (mask : UInt32) : u32OfBe (Bytes.toBe 4 mask.toNat) = mask := by
  rw [u32OfBe, Bytes.of_be_to_be_lt (by exact mask.toNat_lt)]
  exact UInt32.ofNat_toNat

theorem record_entry {e : FourCc × UInt32} (h : PlainEntry e.1) :
    (recordOf legacyKeyOnly e).entry legacyKeyOnly =
      some (e.1, if legacyKeyOnly then fourCcInfoAll else e.2) := by
  rw [MapRecord.entry, recordOf, plain_entry_read h]
  cases legacyKeyOnly
  · simp [u32_of_be_to_be]
  · rfl

/-- The records of plain entries are read as these entries. -/
theorem records_read (h : ∀ e ∈ map, PlainEntry e.1)
    (s : Buffer × VideoFourCcInfoMap) :
    Action.on (videoFourccInfoMapEntries legacyKeyOnly map.length
        ((map.map (recordOf legacyKeyOnly)).flatMap MapRecord.bytes)) s =
      (.ok ⟨⟩, (s.1, s.2 ++
        map.map (fun e => (e.1, if legacyKeyOnly then fourCcInfoAll else e.2)))) := by
  have hentries : (map.map (recordOf legacyKeyOnly)).map (MapRecord.entry legacyKeyOnly) =
      (map.map (fun e => (e.1, if legacyKeyOnly then fourCcInfoAll else e.2))).map some := by
    rw [List.map_map, List.map_map]
    apply List.map_congr_left
    intro e he
    exact record_entry legacyKeyOnly (h e he)
  have hread := entries_read (records_probed legacyKeyOnly map) hentries s
  rwa [List.length_map] at hread

theorem records_walk (map : VideoFourCcInfoMap) :
    walkEntries (maskSize legacyKeyOnly) map.length
      ((map.map (recordOf legacyKeyOnly)).flatMap MapRecord.bytes) = some [] := by
  have hwalk := walk_records (records_probed legacyKeyOnly map) []
  rwa [List.append_nil, List.length_map] at hwalk

end Writing

/-- No string is a map in both layouts. So a map is read back from what was written of it, with or
without masks, and a string is accepted only if it consists of entries of one layout. -/
theorem info_map_layouts_told_apart :
    (∀ (data : List UInt8) (n : Nat), 4 ≤ data.length → Bytes.ofBe (data.take 4) = n → 1 ≤ n →
      n ≤ maxFourccs → ¬ (walkEntries 0 n (data.drop 4) = some [] ∧
        walkEntries 4 n (data.drop 4) = some [])) ∧
    (∀ (map : VideoFourCcInfoMap) (s : Buffer × VideoFourCcInfoMap),
      map.length ≤ maxFourccs → (∀ e ∈ map, PlainEntry e.1) →
        (∀ room, videoFourccInfoMapNeeded map ≤ room →
          Action.on (videoFourccInfoMapParse (videoFourccInfoMapWrite map room)) s =
            (.ok ⟨⟩, (s.1, map))) ∧
        (map ≠ [] → Action.on (videoFourccInfoMapParse (keysOnly map)) s =
          (.ok ⟨⟩, (s.1, map.map (fun e => (e.1, fourCcInfoAll)))))) ∧
    (∀ (data : List UInt8) (n : Nat) (s : Buffer × VideoFourCcInfoMap), 4 ≤ data.length →
      Bytes.ofBe (data.take 4) = n → 1 ≤ n → n ≤ maxFourccs →
      (Action.on (videoFourccInfoMapParse data) s).1 = .ok ⟨⟩ →
        ∃ size, (size = 0 ∨ size = 4) ∧ ∃ rs : List MapRecord, rs.length = n ∧
          (∀ r ∈ rs, r.Of size) ∧ data.drop 4 = rs.flatMap MapRecord.bytes) := by
  refine ⟨?_, ?_, ?_⟩
  · rintro data n - - hn - ⟨hkeys, hmasks⟩
    exact layouts_disjoint hn hkeys hmasks
  · intro map s hlen hplain
    have hmasks : walkEntries 4 map.length
        ((map.map (recordOf false)).flatMap MapRecord.bytes) = some [] := records_walk false map
    have hkeys : walkEntries 0 map.length
        ((map.map (recordOf true)).flatMap MapRecord.bytes) = some [] := records_walk true map
    constructor
    · intro room hroom
      have hbytes : videoFourccInfoMapWrite map room = Bytes.toBe 4 map.length ++
          (map.map (recordOf false)).flatMap MapRecord.bytes := by
        rw [videoFourccInfoMapWrite, if_neg (Nat.not_lt.mpr hroom), List.flatMap_map]
        rfl
      rw [hbytes, map_parse_counted hlen, if_pos hmasks, records_read false hplain]
      simp
    · intro hne
      have hbytes : keysOnly map = Bytes.toBe 4 map.length ++
          (map.map (recordOf true)).flatMap MapRecord.bytes := by
        rw [keysOnly, List.flatMap_map]
        simp [MapRecord.bytes, recordOf]
      have hsome : 1 ≤ map.length := List.length_pos_iff.mpr hne
      rw [hbytes, map_parse_counted hlen, if_neg (fun h => layouts_disjoint hsome hkeys h),
        if_pos hkeys, records_read true hplain]
      simp
  · intro data n s hfour hcount hn hmax hok
    have hdata : data = Bytes.toBe 4 n ++ data.drop 4 := by
      have htake : (data.take 4).length = 4 := by simp [hfour]
      have hback := Bytes.to_be_of_be (data.take 4)
      rw [htake, hcount] at hback
      rw [hback, List.take_append_drop]
    rw [hdata, map_parse_counted hmax] at hok
    generalize data.drop 4 = rest at hok ⊢
    split at hok
    · rename_i hwalk
      obtain ⟨rs, rfl, hprobed, rfl⟩ := walk_sound hwalk
      rw [List.append_nil] at hok ⊢
      exact ⟨4, .inr rfl, rs, rfl, @entries_accepted false rs hprobed _ hok, rfl⟩
    split at hok
    · rename_i hwalk
      obtain ⟨rs, rfl, hprobed, rfl⟩ := walk_sound hwalk
      rw [List.append_nil] at hok ⊢
      exact ⟨0, .inl rfl, rs, rfl, @entries_accepted true rs hprobed _ hok, rfl⟩
    · cases hok

def mixedMap : VideoFourCcInfoMap := [(wildcardEntry, 4), (.avc1, 7)]

theorem mixed_map_read_back :
    Action.on (videoFourccInfoMapParse (videoFourccInfoMapWrite mixedMap 64)) (.new, []) =
      (.ok ⟨⟩, (.new, mixedMap)) := by
  have hplain : ∀ e ∈ mixedMap, PlainEntry e.1 := by
    simp [mixedMap, PlainEntry, FourCc.avc1]
  exact (info_map_layouts_told_apart.2.1 mixedMap (.new, []) (by decide) hplain).1 64 (by decide)

end LibRtmp.Proofs
