import LibRtmp.Lib.Selections
import LibRtmp.Message.Offers
import LibRtmp.Proofs.InfoMaps
import LibRtmp.Proofs.MalformedCaps

namespace LibRtmp.Proofs

open Actions Amf0 Ertmp Parsing

variable (b : Buffer) {code : List UInt8}

section Gathering

variable {E α β T : Type}

def Puts (m : FillM (List E) Unit) (es : List E) : Prop :=
  ∀ s, m.on s = (.ok (), (s.1, s.2 ++ es)) ∨ ∃ x, m.on s = (.error x, s)

/-- A read that fails leaves the output alone, another one consumes some `d`. -/
theorem reading_leaves {m : ReadM α} {P : α → List UInt8 → Prop} (hm : Sound Buffer.peek m P)
    {k : α → FillM T β} {s : Buffer × T} {C : T → Prop} (hfailed : C s.2)
    (hread : ∀ a b d, s.1.peek = d ++ Buffer.peek b → P a d → C ((k a).on (b, s.2)).2.2) :
    C (Action.on (reading m >>= k) s).2.2 := by
  rw [Action.on_bind, on_reading]
  have hsound := hm s.1
  generalize m.on s.1 = r at hsound ⊢
  obtain ⟨r, b⟩ := r
  cases r with
  | error e => exact hfailed
  | ok a =>
    obtain ⟨d, hd, hP⟩ := hsound a rfl
    exact hread a b d hd hP

theorem Puts.leaves {m : FillM (List E) Unit} {es : List E} (h : Puts m es)
    {k : Unit → FillM (List E) β} {s : Buffer × List E} {C : List E → Prop} (hfailed : C s.2)
    (hdone : C ((k ()).on (s.1, s.2 ++ es)).2.2) : C (Action.on (m >>= k) s).2.2 := by
  rw [Action.on_bind]
  rcases h s with h | ⟨x, h⟩
  · rw [h]
    exact hdone
  · rw [h]
    exact hfailed

/-- The output has grown by what `g` makes of some items at the front of the input. -/
def Gathered {ι : Type} (bytes : ι → List UInt8) (g : ι → Option E) (n : Nat)
    (input : List UInt8) (before after : List E) : Prop :=
  ∃ (items : List ι) (rest : List UInt8), items.length ≤ n ∧
    input = items.flatMap bytes ++ rest ∧ after = before ++ items.filterMap g

theorem gathered_none {ι : Type} {bytes : ι → List UInt8} {g : ι → Option E} {n : Nat}
    {input : List UInt8} {before : List E} : Gathered bytes g n input before before :=
  ⟨[], input, Nat.zero_le n, rfl, (List.append_nil _).symm⟩

theorem Gathered.cons {ι : Type} {bytes : ι → List UInt8} {g : ι → Option E} {n : Nat}
    {input rest : List UInt8} {before after : List E} {i : ι}
    (h : Gathered bytes g n rest (before ++ (g i).toList) after)
    (hinput : input = bytes i ++ rest) : Gathered bytes g (n + 1) input before after := by
  obtain ⟨items, tail, hlen, hrest, hafter⟩ := h
  refine ⟨i :: items, tail, Nat.succ_le_succ hlen, ?_, ?_⟩
  · rw [hinput, hrest, List.flatMap_cons, List.append_assoc]
  · rw [hafter]
    cases hg : g i <;> simp [hg]

theorem list_add_puts (cc : List UInt8) :
    Puts (fourccListAdd cc) (fourccEntry cc).toList := by
  intro s
  rw [fourccListAdd, Action.on_bind, Action.on_get]
  dsimp only
  split
  · exact .inr ⟨_, rfl⟩
  · cases fourccEntry cc with
    | none => exact .inr ⟨_, rfl⟩
    | some entry => exact .inl rfl

theorem fourcc_entry_none {cc : List UInt8} (h : ¬ (cc = [0x2A] ∨ cc.length ≥ 4)) :
    fourccEntry cc = none := by
  rw [not_or] at h
  rw [fourccEntry, if_neg h.1]
  rcases cc with _ | ⟨a, _ | ⟨b, _ | ⟨c, _ | ⟨d, rest⟩⟩⟩⟩
  case cons.cons.cons.cons => exact absurd (by simp) h.2
  all_goals rfl

theorem add_string_puts (cc : List UInt8) :
    Puts (addFourCcString cc) (fourccEntry cc).toList := by
  unfold addFourCcString
  split
  · exact list_add_puts cc
  · rename_i hshort
    intro s
    rw [fourcc_entry_none hshort]
    exact .inl (by simp)

theorem map_add_puts (key : List UInt8) (mask : UInt32) : Puts (addVideoMapEntry key mask)
    ((fourccEntry key).map (fun cc => (cc, mask))).toList := by
  intro s
  rw [addVideoMapEntry, Action.on_bind, Action.on_get]
  dsimp only
  split
  · exact .inr ⟨_, rfl⟩
  · cases fourccEntry key with
    | none => exact .inr ⟨_, rfl⟩
    | some entry => exact .inl rfl

theorem names_gather {add : List UInt8 → FillM (List E) Unit} {g : List UInt8 → Option E}
    (hadd : ∀ cc, Puts (add cc) (g cc).toList) (n : Nat) (s : Buffer × List E) :
    Gathered stringBytes g n s.1.peek s.2 ((readNames add n).on s).2.2 := by
  induction n generalizing s with
  | zero => exact gathered_none
  | succ n ih =>
    apply reading_leaves (sound_string 8) gathered_none
    rintro cc b d hd ⟨rfl, -, -⟩
    apply (hadd cc).leaves gathered_none
    exact (ih (b, s.2 ++ (g cc).toList)).cons hd

/-- The entries of a list in binary form. -/
theorem list_entries_gather (count : Nat) (data : List UInt8) (s : Buffer × FourCcList) :
    Gathered countedName fourccEntry count data s.2 ((fourccListEntries count data).on s).2.2 := by
  induction count generalizing data s with
  | zero => exact gathered_none
  | succ count ih =>
    rw [fourccListEntries]
    generalize hslen : Bytes.ofBe (data.take 2) = slen
    split
    · exact gathered_none
    split
    · exact gathered_none
    rename_i htwo hfits
    apply (list_add_puts _).leaves gathered_none
    exact (ih _ _).cons (counted_front hslen htwo (not_or.mp hfits).2)

theorem map_member_puts (key : List UInt8) {k : Unit → FillM VideoFourCcInfoMap β}
    {s : Buffer × VideoFourCcInfoMap} {C : VideoFourCcInfoMap → Prop} (hfailed : C s.2)
    (hdone : ∀ bits b, s.1.peek = Amf0Type.number.marker :: (Bytes.toBe 8 bits ++ Buffer.peek b) →
      C ((k ()).on (b, s.2 ++
        ((fourccEntry key).map (fun cc => (cc, maskOfBits bits))).toList)).2.2) :
    C (Action.on (readVideoMapMember key >>= k) s).2.2 := by
  rw [readVideoMapMember, bind_assoc]
  apply reading_leaves sound_type hfailed
  rintro ty b d hd rfl
  by_cases hty : ty ≠ .number
  · rw [if_pos hty]
    exact hfailed
  rw [if_neg hty, bind_assoc]
  apply reading_leaves (s := (b, s.2)) (sound_be .io 8) hfailed
  rintro bits b' d hd' ⟨-, rfl⟩
  cases hmask : Double.toNatUpTo 4294967295 bits with
  | none => exact hfailed
  | some mask =>
    have hbits : maskOfBits bits = UInt32.ofNat mask := by
      rw [maskOfBits, hmask]
      rfl
    apply (map_add_puts key (UInt32.ofNat mask)).leaves (s := (b', s.2)) hfailed
    rw [← hbits]
    apply hdone bits b'
    rw [hd, show b.peek = _ from hd', not_not.mp hty]
    rfl

/-- The members of an object with masks. -/
theorem map_members_gather (keys : Nat) (s : Buffer × VideoFourCcInfoMap) :
    Gathered numberMember (fun m => (fourccEntry m.1).map (fun cc => (cc, maskOfBits m.2))) keys
      s.1.peek s.2 ((readMembers readVideoMapMember keys).on s).2.2 := by
  induction keys generalizing s with
  | zero =>
    rw [on_read_members]
    split
    · exact reading_leaves (sound_bytes .amf 3) gathered_none fun _ _ _ _ _ => gathered_none
    · exact gathered_none
  | succ keys ih =>
    rw [on_read_members]
    split
    · exact reading_leaves (sound_bytes .amf 3) gathered_none fun _ _ _ _ _ => gathered_none
    · apply reading_leaves sound_object_key gathered_none
      rintro key b d hd ⟨rfl, -⟩
      apply map_member_puts key gathered_none
      intro bits b' hb'
      refine (ih (b', _)).cons (i := (key, bits)) ?_
      rw [hd, show b.peek = _ from hb', numberMember, countedName]
      simp

theorem map_entries_gather {legacyKeyOnly : Bool} {rs : List MapRecord}
    (h : ∀ r ∈ rs, r.Probed (maskSize legacyKeyOnly)) (s : Buffer × VideoFourCcInfoMap) :
    ∃ taken left, rs = taken ++ left ∧
      (Action.on (videoFourccInfoMapEntries legacyKeyOnly rs.length
        (rs.flatMap MapRecord.bytes)) s).2.2 =
          s.2 ++ taken.filterMap (MapRecord.entry legacyKeyOnly) := by
  induction rs generalizing s with
  | nil => exact ⟨[], [], rfl, (List.append_nil _).symm⟩
  | cons r rs ih =>
    rw [List.flatMap_cons, List.length_cons, entries_cons (h r List.mem_cons_self)]
    cases he : r.entry legacyKeyOnly with
    | none => exact ⟨[], r :: rs, rfl, (List.append_nil _).symm⟩
    | some e =>
      obtain ⟨taken, left, hrs, hout⟩ :=
        ih (fun q hq => h q (List.mem_cons_of_mem _ hq)) (s.1, s.2 ++ [e])
      refine ⟨r :: taken, left, by rw [hrs]; rfl, ?_⟩
      dsimp only
      rw [hout, List.filterMap_cons_some he, List.append_assoc]
      rfl

theorem sound_long_string : Sound Buffer.peek (readAmfBinaryBlob .longString)
    (fun data d => d = Bytes.toBe 4 data.length ++ data) := by
  refine (sound_be .amf 4).bind fun len d hd => sound_guarded fun _ => ?_
  obtain ⟨-, rfl⟩ := hd
  refine (sound_bytes .amf len).mono fun data d hd => ?_
  obtain ⟨rfl, rfl⟩ := hd
  rfl

theorem count_front {data : List UInt8} (h : ¬ data.length < 4) :
    data = Bytes.toBe 4 (Bytes.ofBe (data.take 4)) ++ data.drop 4 := by
  have htake : (data.take 4).length = 4 := by
    simp only [List.length_take]
    omega
  have hback := Bytes.to_be_of_be (data.take 4)
  rw [htake] at hback
  rw [hback, List.take_append_drop]

def ListFrom (value : List UInt8) (list : FourCcList) : Prop :=
  ∃ codes : List (List UInt8), codes.length ≤ maxFourccs ∧ ListOffers value codes ∧
    list = codes.filterMap fourccEntry

def MapFrom (value : List UInt8) (map : VideoFourCcInfoMap) : Prop :=
  ∃ keys : List (List UInt8 × UInt32), MapOffers value keys ∧
    map = keys.filterMap (fun k => (fourccEntry k.1).map (fun cc => (cc, k.2)))

theorem no_list (value : List UInt8) : ListFrom value [] :=
  ⟨[], Nat.zero_le _, .nothing _, rfl⟩

theorem no_map (value : List UInt8) : MapFrom value [] := ⟨[], .nothing _, rfl⟩

/-- Accepted or not, a list leaves strings that were sent. -/
theorem list_gather : ListFrom b.peek (readFourCcListAmf.on (b, [])).2.2 := by
  rw [readFourCcListAmf, fourccListInit, on_filling_then]
  apply reading_leaves sound_type (no_list _)
  rintro ty b' d hd rfl
  cases ty with
  | strictArray =>
    apply reading_leaves (sound_be .amf 4) (no_list _)
    rintro n b'' d hd' ⟨-, rfl⟩
    by_cases hmany : n > maxFourccs
    · rw [if_pos hmany]
      exact no_list _
    · rw [if_neg hmany]
      obtain ⟨codes, rest, hlen, hpeek, hout⟩ := names_gather add_string_puts n (b'', [])
      refine ⟨codes, Nat.le_trans hlen (Nat.not_lt.mp hmany), ?_, hout⟩
      rw [show b.peek = _ from hd, show b'.peek = _ from hd', show b''.peek = _ from hpeek]
      exact .array hlen rest
  | longString =>
    apply reading_leaves sound_long_string (no_list _)
    rintro data b'' d hd' rfl
    rw [fourccListParse]
    by_cases hshort : data.length < 4
    · rw [if_pos hshort]
      exact no_list _
    · rw [if_neg hshort, fourccListInit, on_filling_then]
      obtain ⟨codes, rest, hlen, hdata, hout⟩ := list_entries_gather
        (min (Bytes.ofBe (data.take 4)) maxFourccs) (data.drop 4) (b'', [])
      refine ⟨codes, Nat.le_trans hlen (Nat.min_le_right _ _), ?_, hout⟩
      rw [show b.peek = _ from hd, show b'.peek = _ from hd', List.append_assoc]
      exact .blob (Nat.le_trans hlen (Nat.min_le_left _ _))
        ((count_front hshort).trans (by rw [hdata])) _
  | _ => exact no_list _

theorem map_blob_gather {data : List UInt8} {rs : List MapRecord} {legacyKeyOnly : Bool}
    (hshort : ¬ data.length < 4) (hprobed : ∀ r ∈ rs, r.Probed (maskSize legacyKeyOnly))
    (hcount : rs.length = min (Bytes.ofBe (data.take 4)) maxFourccs)
    (hdata : data.drop 4 = rs.flatMap MapRecord.bytes) (b : Buffer) (tail : List UInt8) :
    MapFrom (Amf0Type.longString.marker :: (Bytes.toBe 4 data.length ++ (data ++ tail)))
      (Action.on (videoFourccInfoMapEntries legacyKeyOnly rs.length
        (rs.flatMap MapRecord.bytes)) (b, [])).2.2 := by
  obtain ⟨taken, left, rfl, hout⟩ := map_entries_gather hprobed (b, [])
  have hlen : taken.length ≤ Bytes.ofBe (data.take 4) := by
    rw [List.length_append] at hcount
    omega
  have hsizes : ∀ r ∈ taken, r.extra.length = maskSize legacyKeyOnly :=
    fun r hr => (hprobed r (List.mem_append_left _ hr)).extra
  have hbytes : data = Bytes.toBe 4 (Bytes.ofBe (data.take 4)) ++
      (taken.flatMap MapRecord.bytes ++ left.flatMap MapRecord.bytes) := by
    rw [← List.flatMap_append, ← hdata]
    exact count_front hshort
  refine ⟨_, .blob legacyKeyOnly hlen hsizes hbytes tail, ?_⟩
  rw [hout, List.filterMap_map]
  rfl

/-- Accepted or not, a map leaves keys that were sent. -/
theorem map_gather : MapFrom b.peek (readVideoFourccInfoMapAmf.on (b, [])).2.2 := by
  rw [readVideoFourccInfoMapAmf, on_filling_then]
  apply reading_leaves sound_type (no_map _)
  rintro ty b' d hd rfl
  cases ty with
  | strictArray =>
    apply reading_leaves (sound_be .amf 4) (no_map _)
    rintro n b'' d hd' ⟨-, rfl⟩
    by_cases hmany : n > maxFourccs
    · rw [if_pos hmany]
      exact no_map _
    · rw [if_neg hmany]
      obtain ⟨codes, rest, hlen, hpeek, hout⟩ :=
        names_gather (fun cc => map_add_puts cc fourCcInfoAll) n (b'', [])
      rw [show b.peek = _ from hd, show b'.peek = _ from hd', show b''.peek = _ from hpeek]
      refine ⟨_, .array hlen rest, ?_⟩
      rw [hout, List.filterMap_map]
      rfl
  | longString =>
    apply reading_leaves sound_long_string (no_map _)
    rintro data b'' d hd' rfl
    rw [videoFourccInfoMapParse]
    by_cases hshort : data.length < 4
    · rw [if_pos hshort]
      exact no_map _
    rw [if_neg hshort, on_filling_then, show b.peek = _ from hd, show b'.peek = _ from hd',
      List.append_assoc]
    dsimp only
    split
    · rename_i hwalk
      obtain ⟨rs, hcount, hprobed, hdata⟩ := walk_sound hwalk
      rw [List.append_nil] at hdata
      rw [← hcount, hdata]
      exact @map_blob_gather data rs false hshort hprobed hcount hdata b'' _
    split
    · rename_i hwalk
      obtain ⟨rs, hcount, hprobed, hdata⟩ := walk_sound hwalk
      rw [List.append_nil] at hdata
      rw [← hcount, hdata]
      exact @map_blob_gather data rs true hshort hprobed hcount hdata b'' _
    · exact no_map _
  | object =>
    obtain ⟨members, rest, -, hpeek, hout⟩ := map_members_gather maxObjectKeys (b', [])
    rw [show b.peek = _ from hd, show b'.peek = _ from hpeek]
    refine ⟨_, .object members rest, ?_⟩
    rw [show Action.on _ _ = _ from rfl, hout, List.filterMap_map]
    rfl
  | ecmaArray =>
    apply reading_leaves (sound_be .amf 4) (no_map _)
    rintro n b'' d hd' ⟨-, rfl⟩
    obtain ⟨members, rest, -, hpeek, hout⟩ := map_members_gather maxObjectKeys (b'', [])
    rw [show b.peek = _ from hd, show b'.peek = _ from hd', show b''.peek = _ from hpeek]
    refine ⟨_, .ecmaArray (Bytes.to_be_length 4 n) members rest, ?_⟩
    rw [hout, List.filterMap_map]
    rfl
  | _ => exact no_map _

end Gathering

section Negotiating

def grantedName (code : List UInt8) : List UInt8 :=
  if isStarred code then [0x2A] else code.take 4

theorem entry_bytes_named {entry : FourCc} (h : fourccEntry code = some entry) :
    fourccEntryBytes entry = grantedName code := by
  by_cases hstar : code = [0x2A]
  · subst hstar
    cases h
    rfl
  · rw [fourccEntry, if_neg hstar] at h
    rcases code with _ | ⟨a, _ | ⟨b, _ | ⟨c, _ | ⟨d, rest⟩⟩⟩⟩
    case cons.cons.cons.cons =>
      cases h
      by_cases ha : a = 0x2A
      · simp [fourccEntryBytes, grantedName, isStarred, ha]
      · simp [fourccEntryBytes, grantedName, isStarred, ha, FourCc.bytes]
    all_goals cases h

/-- The name of an entry stands for an entry of the same name. -/
theorem entry_of_bytes (entry : FourCc) :
    ∃ e, fourccEntry (fourccEntryBytes entry) = some e ∧
      fourccEntryBytes e = fourccEntryBytes entry := by
  by_cases ha : entry.a = 0x2A
  · exact ⟨wildcardEntry, by rw [fourccEntryBytes, if_pos ha]; rfl,
      by rw [fourccEntryBytes, fourccEntryBytes, if_pos ha]; rfl⟩
  · exact ⟨entry, plain_entry_read (.inr ha), rfl⟩

def isGranted (code : List UInt8) : Bool :=
  (fourccEntry code).isSome && fourCcSupported (grantedName code)

/-- With few enough entries there is room for all that are supported. -/
theorem negotiated_names {codes : List (List UInt8)} {out : FourCcList}
    (h : out.length + codes.length ≤ maxFourccs) :
    ((codes.filterMap fourccEntry).foldl negotiateFourCc out).map fourccEntryBytes =
      out.map fourccEntryBytes ++ (codes.filter isGranted).map grantedName := by
  induction codes generalizing out with
  | nil => simp
  | cons code codes ih =>
    rw [List.length_cons] at h
    cases he : fourccEntry code with
    | none =>
      rw [List.filterMap_cons_none he, List.filter_cons_of_neg (by simp [isGranted, he])]
      exact ih (by omega)
    | some entry =>
      have hname := entry_bytes_named he
      rw [List.filterMap_cons_some he, List.foldl_cons, negotiateFourCc, hname]
      by_cases hsupported : fourCcSupported (grantedName code) = true
      · obtain ⟨e, hentry, hbytes⟩ := entry_of_bytes entry
        rw [hname] at hentry hbytes
        rw [if_pos ⟨hsupported, by omega⟩, hentry, ih (by simp; omega),
          List.filter_cons_of_pos (by simp [isGranted, he, hsupported])]
        simp [hbytes]
      · rw [if_neg (fun h => hsupported h.1),
          List.filter_cons_of_neg (by simp [isGranted, hsupported])]
        exact ih (by omega)

def isGrantedKey (k : List UInt8 × UInt32) : Bool :=
  isGranted k.1 && k.2 &&& fourCcInfoCanForward != 0

/-- Negotiating keeps the granted keys, in order. -/
theorem negotiated_keys (keys : List (List UInt8 × UInt32)) :
    (negotiateInfoMap (keys.filterMap
      (fun k => (fourccEntry k.1).map (fun cc => (cc, k.2))))).map
        (fun e => (fourccEntryBytes e.1, e.2)) =
      (keys.filter isGrantedKey).map
        (fun k => (grantedName k.1, k.2 &&& fourCcInfoCanForward)) := by
  unfold negotiateInfoMap
  induction keys with
  | nil => rfl
  | cons k keys ih =>
    cases he : fourccEntry k.1 with
    | none =>
      rw [List.filterMap_cons_none (by rw [he]; rfl),
        List.filter_cons_of_neg (by simp [isGrantedKey, isGranted, he])]
      exact ih
    | some entry =>
      have hname := entry_bytes_named he
      rw [List.filterMap_cons_some (by rw [he]; rfl)]
      by_cases hgranted : isGrantedKey k = true
      · have hg := hgranted
        simp only [isGrantedKey, isGranted, he, Option.isSome_some, Bool.true_and,
          Bool.and_eq_true, bne_iff_ne] at hg
        obtain ⟨e, hentry, hbytes⟩ := entry_of_bytes entry
        rw [hname] at hentry hbytes
        have hinfo : negotiateInfo (entry, k.2) = some (e, k.2 &&& fourCcInfoCanForward) := by
          rw [negotiateInfo, hname, hentry, if_neg (by simp [hg])]
          rfl
        rw [List.filterMap_cons_some hinfo, List.filter_cons_of_pos hgranted, List.map_cons, ih,
          List.map_cons, hbytes]
      · have hg := hgranted
        simp only [isGrantedKey, isGranted, he, Option.isSome_some, Bool.true_and,
          Bool.and_eq_true, bne_iff_ne] at hg
        have hinfo : negotiateInfo (entry, k.2) = none := by
          rw [negotiateInfo, hname, if_pos]
          by_cases hmask : k.2 &&& fourCcInfoCanForward = 0
          · exact .inl hmask
          · exact .inr fun hsupported => hg ⟨hsupported, hmask⟩
        rw [List.filterMap_cons_none hinfo, List.filter_cons_of_neg hgranted]
        exact ih

theorem wildcard_supported : fourCcSupported [0x2A] = true := by decide +kernel

theorem starred_granted (h : isStarred code = true) :
    isGranted code = true ∧ grantedName code = [0x2A] ∧ code.take 4 ≠ [0x2A] := by
  have hname : grantedName code = [0x2A] := by rw [grantedName, if_pos h]
  simp only [isStarred, Bool.and_eq_true, decide_eq_true_eq] at h
  match code, h.1 with
  | a :: b :: c :: d :: rest, _ =>
    refine ⟨?_, hname, by simp⟩
    rw [isGranted, hname, wildcard_supported, Bool.and_true]
    simp [fourccEntry, FourCc.read]

/-- The wildcard is granted as itself. -/
theorem wildcard_granted (h : code.take 4 = [0x2A]) :
    isGranted code = true ∧ grantedName code = [0x2A] := by
  have hcode : code = [0x2A] := by
    match code, h with
    | [a], h => exact h
  subst hcode
  exact ⟨wildcard_supported, rfl⟩

/-- Names are granted as they were sent, but for strings that only look like the wildcard. -/
theorem names_granted_iff (codes : List (List UInt8)) :
    ((codes.filter isGranted).map grantedName).Sublist (codes.map (fun c => c.take 4)) ↔
      ∀ c ∈ codes, isStarred c = false := by
  constructor
  · intro hsub c hc
    by_contra hstar
    obtain ⟨hgranted, hname, hother⟩ := starred_granted (Bool.not_eq_false _ ▸ hstar)
    exact Selections.chosen_not_sublist (p := isGranted) (f := grantedName)
      (g := fun c => c.take 4) (fun a _ ha => wildcard_granted ha) hc hgranted hname hother hsub
  · intro h
    apply Selections.chosen_sublist
    intro c hc _
    rw [grantedName, h c hc]
    rfl

theorem keys_granted_iff (keys : List (List UInt8 × UInt32)) :
    ((keys.filter isGrantedKey).map
        (fun k => (grantedName k.1, k.2 &&& fourCcInfoCanForward))).Sublist
      (keys.map (fun k => (k.1.take 4, k.2 &&& fourCcInfoCanForward))) ↔
      ∀ k ∈ keys, isStarred k.1 = true → k.2 &&& fourCcInfoCanForward = 0 := by
  constructor
  · intro hsub k hk hstar
    by_contra hmask
    obtain ⟨hgranted, hname, hother⟩ := starred_granted hstar
    refine Selections.chosen_not_sublist (b := ([0x2A], k.2 &&& fourCcInfoCanForward))
      (fun a _ ha => ?_) hk ?_ ?_ ?_ hsub
    · obtain ⟨hcode, hsame⟩ := Prod.mk.inj ha
      obtain ⟨hg, hn⟩ := wildcard_granted hcode
      exact ⟨by simp [isGrantedKey, hg, hsame, hmask], by rw [hn, hsame]⟩
    · simp [isGrantedKey, hgranted, hmask]
    · rw [hname]
    · exact fun heq => hother (Prod.mk.inj heq).1
  · intro h
    apply Selections.chosen_sublist
    intro k hk hgranted
    cases hstar : isStarred k.1 with
    | true => simp [isGrantedKey, h k hk hstar] at hgranted
    | false =>
      rw [grantedName, hstar]
      rfl

end Negotiating

section Masks

variable {m : ConnectMember} {t t' : ConnectOutput}

/-- A part of the output that changes is left by one of the members. -/
theorem member_leaves {α : Type} (part : ConnectOutput → α) (Q : ConnectMember → α → Prop)
    (hstep : ∀ m t t', m.value.length ≤ isizeMax → connectDecided m.key t m.value t' →
      part t' = part t ∨ Q m (part t'))
    {members : List ConnectMember} (h : connectRead t members t') :
    part t' = part t ∨ ∃ m ∈ members, Q m (part t') := by
  induction h with
  | nil t => exact .inl rfl
  | @cons t t₁ t₂ m members _ _ hlen h _ ih =>
    rcases ih with hsame | ⟨q, hq, hleft⟩
    · rw [hsame]
      rcases hstep m t t₁ hlen h with hfirst | hfirst
      · exact .inl hfirst
      · exact .inr ⟨m, List.mem_cons_self, hfirst⟩
    · exact .inr ⟨q, List.mem_cons_of_mem _ hq, hleft⟩

theorem caps_mask_sent {s : Buffer × CapsEx} {mask : UInt32}
    (h : (readCapsExMask.on s).1 = .ok mask) : SendsMask s.1.peek mask := by
  unfold readCapsExMask at h
  obtain ⟨ty, b, d, hd, rfl, hon⟩ := reading_then_ok sound_type h
  rw [hon] at h
  rw [hd]
  cases ty with
  | number =>
    obtain ⟨bits, hbits, h, -⟩ := bind_ok h
    obtain ⟨d, hd', -, rfl⟩ := sound_reading (sound_be .io 8) _ bits hbits
    rw [show b.peek = _ from hd']
    rw [on_reading, wholeU32] at h
    cases hint : Double.toInt? bits with
    | none =>
      rw [hint] at h
      cases h
    | some n =>
      rw [hint] at h
      dsimp only at h
      split at h
      · rename_i hn
        cases h
        refine .number (n := n.toNat) ?_ (by omega) _
        rw [hint, Int.toNat_of_nonneg hn.1]
      · cases h
  | longString =>
    obtain ⟨data, -, h, -⟩ := bind_ok h
    obtain ⟨_, -, h, -⟩ := bind_ok h
    cases h
    exact .longString _
  | object =>
    obtain ⟨_, -, h, -⟩ := bind_ok h
    obtain ⟨_, -, h, -⟩ := bind_ok h
    cases h
    exact .object _
  | _ => cases h

def maskRead (t : ConnectOutput) : Option UInt32 :=
  if t.info.hasCapsEx then some t.info.capsEx.mask else none

theorem accepted_result {field : CapField} (hfield : m.field = some field)
    (h : (field.read.on (bufferOf m.value, t)).1 = .ok ()) : m.Accepted field := by
  refine ⟨hfield, ?_⟩
  rw [rejected_result hfield t, h]
  rfl

/-- The readers of the list and of the map leave the rest. -/
theorem codecs_leave_rest {field : CapField}
    (hfield : field = .fourCcList ∨ field = .videoFourCcInfoMap) (b : Buffer) (t : ConnectOutput) :
    maskRead (field.read.on (b, t)).2.2 = maskRead t ∧
      (field.read.on (b, t)).2.2.info.hasReconnect = t.info.hasReconnect := by
  rcases hfield with rfl | rfl
  · rw [list_read_on]
    generalize readFourCcListAmf.on (b, []) = r
    obtain ⟨r, b', list⟩ := r
    cases r <;> exact ⟨rfl, rfl⟩
  · rw [map_read_on]
    generalize readVideoFourccInfoMapAmf.on (b, []) = r
    obtain ⟨r, b', map⟩ := r
    cases r <;> exact ⟨rfl, rfl⟩

/-- The reader of a `capsEx` returns with a mask that was sent, or leaves the one there was. -/
theorem caps_read_sent (t : ConnectOutput) :
    ((CapField.capsEx.read.on (b, t)).1 = .ok () ∧ ∃ mask, SendsMask b.peek mask ∧
      maskRead (CapField.capsEx.read.on (b, t)).2.2 = some mask) ∨
    maskRead (CapField.capsEx.read.on (b, t)).2.2 = maskRead t := by
  obtain ⟨r, b', hcodecs⟩ := codecs_caps_mask b
  obtain ⟨caps, hon⟩ := hcodecs t.info.capsEx
  have hsent {mask : UInt32} (h : r = .ok mask) : SendsMask b.peek mask :=
    caps_mask_sent (s := (b, t.info.capsEx)) (by rw [hon, h])
  rw [CapField.read, Action.on_bind, on_into, readCapsExAmf, Action.on_bind, hon]
  cases r with
  | ok mask => exact .inl ⟨rfl, mask, hsent rfl, rfl⟩
  | error e => exact .inr rfl

theorem mask_step (m : ConnectMember) (t t' : ConnectOutput) (hlen : m.value.length ≤ isizeMax)
    (h : connectDecided m.key t m.value t') : maskRead t' = maskRead t ∨
      (m.Accepted .capsEx ∧ ∃ mask, SendsMask m.value mask ∧ maskRead t' = some mask) := by
  cases hfield : m.field with
  | none =>
    obtain ⟨f, hf, rfl⟩ := plain_member hfield hlen h
    obtain ⟨hcaps, hhas⟩ := hf.caps t
    left
    rw [maskRead, maskRead, hcaps, hhas]
  | some field =>
    rw [← cap_out hfield hlen h]
    cases field with
    | capsEx =>
      rcases caps_read_sent (bufferOf m.value) t with ⟨hok, hsent⟩ | hsame
      · rw [peek_buffer_of hlen] at hsent
        exact .inr ⟨accepted_result hfield hok, hsent⟩
      · exact .inl hsame
    | reconnect =>
      obtain ⟨r, b', hread⟩ := reconnect_read_on (bufferOf m.value)
      rw [hread]
      left
      cases r <;> rfl
    | fourCcList => exact .inl (codecs_leave_rest (.inl rfl) _ t).1
    | videoFourCcInfoMap => exact .inl (codecs_leave_rest (.inr rfl) _ t).1

theorem reconnect_step (m : ConnectMember) (t t' : ConnectOutput)
    (hlen : m.value.length ≤ isizeMax) (h : connectDecided m.key t m.value t') :
    t'.info.hasReconnect = t.info.hasReconnect ∨ m.Accepted .reconnect := by
  cases hfield : m.field with
  | none =>
    obtain ⟨f, hf, rfl⟩ := plain_member hfield hlen h
    exact .inl (hf.hasReconnect t)
  | some field =>
    rw [← cap_out hfield hlen h]
    cases field with
    | reconnect =>
      have haccepted := accepted_result (t := t) hfield
      obtain ⟨r, b', hread⟩ := reconnect_read_on (bufferOf m.value)
      rw [hread] at haccepted ⊢
      cases r with
      | ok rc => exact .inr (haccepted rfl)
      | error e => exact .inl rfl
    | capsEx =>
      obtain ⟨r, b', hread⟩ := caps_read_on (bufferOf m.value)
      obtain ⟨caps, hread⟩ := hread t
      rw [hread]
      left
      cases r <;> rfl
    | fourCcList => exact .inl (codecs_leave_rest (.inl rfl) _ t).2
    | videoFourCcInfoMap => exact .inl (codecs_leave_rest (.inr rfl) _ t).2

end Masks

section Offers

variable {name : List UInt8} {number : Nat} {members : List ConnectMember} {t : ConnectOutput}

theorem list_outcome_from {value : List UInt8} (hlen : value.length ≤ isizeMax) :
    ListFrom value (CapField.fourCcList.outcome value).2.fourCcList := by
  have hlist := list_gather (bufferOf value)
  rw [peek_buffer_of hlen] at hlist
  rw [CapField.outcome, list_read_on]
  generalize readFourCcListAmf.on (bufferOf value, []) = r at hlist
  obtain ⟨r, b', list⟩ := r
  cases r <;> exact hlist

theorem map_outcome_from {value : List UInt8} (hlen : value.length ≤ isizeMax) :
    MapFrom value (CapField.videoFourCcInfoMap.outcome value).2.videoFourCcInfoMap := by
  have hmap := map_gather (bufferOf value)
  rw [peek_buffer_of hlen] at hmap
  rw [CapField.outcome, map_read_on]
  generalize readVideoFourccInfoMapAmf.on (bufferOf value, []) = r at hmap
  obtain ⟨r, b', map⟩ := r
  cases r <;> exact hmap

/-- If something was accepted, what was read comes from one of the members. -/
theorem offered_by {α : Type} {field : CapField} {has : ConnectOutput → Bool}
    {part : ConnectOutput → α} {left : ConnectMember → α} {P : List UInt8 → α → Prop}
    {t t' : ConnectOutput}
    (hstep : ∀ m t t', m.value.length ≤ isizeMax → connectDecided m.key t m.value t' →
      part t' = if m.field = some field then left m else part t)
    (hoffered : ∀ (m : ConnectMember) (t t' : ConnectOutput), m.value.length ≤ isizeMax →
      connectDecided m.key t m.value t' → has t' = (has t || (m.field = some field && !m.rejected)))
    (hleft : ∀ m : ConnectMember, m.value.length ≤ isizeMax → P m.value (left m))
    (h : connectRead t members t') (hbefore : has t = false) (hhas : has t' = true) :
    ∃ m ∈ members, m.field = some field ∧ P m.value (part t') := by
  have hread := member_leaves (fun t => (has t, part t))
    (fun m p => m.field = some field ∧ P m.value p.2) (fun m t t' hlen hm => ?_) h
  · rcases hread with hsame | hread
    · rw [(Prod.mk.inj hsame).1, hbefore] at hhas
      cases hhas
    · exact hread
  · have hpart := hstep m t t' hlen hm
    by_cases hfield : m.field = some field
    · right
      rw [if_pos hfield] at hpart
      exact ⟨hfield, hpart ▸ hleft m hlen⟩
    · left
      rw [if_neg hfield] at hpart
      simp [hpart, hoffered m t t' hlen hm, hfield]

variable (h : connectRead (connectStart name number) members t)

include h

/-- The strings of the list that was read, if one was accepted. -/
theorem list_offers :
    ∃ codes : List (List UInt8), codes.length ≤ maxFourccs ∧
      (if t.info.hasFourCcList then
        (∃ m ∈ members, m.field = some .fourCcList ∧ ListOffers m.value codes) ∧
          t.info.fourCcList = codes.filterMap fourccEntry
      else codes = []) ∧
      (negotiateCaps t.info).fourCcList.map fourccEntryBytes =
        (codes.filter isGranted).map grantedName := by
  cases hhas : t.info.hasFourCcList with
  | false =>
    refine ⟨[], Nat.zero_le _, ?_, ?_⟩
    · rw [if_neg (by simp)]
    · simp [negotiateCaps, hhas]
  | true =>
    obtain ⟨m, hm, hfield, codes, hlen, hoffers, hlist⟩ :=
      offered_by list_step list_offered (fun _ => list_outcome_from) h rfl hhas
    refine ⟨codes, hlen, ?_, ?_⟩
    · rw [if_pos rfl]
      exact ⟨⟨m, hm, hfield, hoffers⟩, hlist⟩
    · have hnames := @negotiated_names codes [] (by simpa using hlen)
      simpa [negotiateCaps, hhas, hlist, negotiateFourCcList] using hnames

theorem map_offers :
    ∃ keys : List (List UInt8 × UInt32),
      (if t.info.hasVideoFourCcInfoMap then
        (∃ m ∈ members, m.field = some .videoFourCcInfoMap ∧ MapOffers m.value keys) ∧
          t.info.videoFourCcInfoMap =
            keys.filterMap (fun k => (fourccEntry k.1).map (fun cc => (cc, k.2)))
      else keys = []) ∧
      (negotiateCaps t.info).videoFourCcInfoMap.map (fun e => (fourccEntryBytes e.1, e.2)) =
        (keys.filter isGrantedKey).map
          (fun k => (grantedName k.1, k.2 &&& fourCcInfoCanForward)) := by
  cases hhas : t.info.hasVideoFourCcInfoMap with
  | false =>
    refine ⟨[], ?_, ?_⟩
    · rw [if_neg (by simp)]
    · simp [negotiateCaps, hhas]
  | true =>
    obtain ⟨m, hm, hfield, keys, hoffers, hmap⟩ :=
      offered_by map_step map_offered (fun _ => map_outcome_from) h rfl hhas
    refine ⟨keys, ?_, ?_⟩
    · rw [if_pos rfl]
      exact ⟨⟨m, hm, hfield, hoffers⟩, hmap⟩
    · rw [← negotiated_keys]
      simp [negotiateCaps, hhas, hmap]

end Offers

section Granting

variable {name : List UInt8} {number : Nat} {members : List ConnectMember} {t : ConnectOutput}

theorem bits_ext {x y : UInt32} (h : ∀ i, x.toBitVec.getLsbD i = y.toBitVec.getLsbD i) : x = y :=
  UInt32.toBitVec_inj.mp (BitVec.eq_of_getLsbD_eq fun i _ => h i)

theorem granted_mask_requested (requested : UInt32) (hasReconnect : Bool) :
    negotiateMask requested hasReconnect &&& requested = negotiateMask requested hasReconnect := by
  apply bits_ext
  intro i
  cases hasReconnect with
  | false =>
    simp only [negotiateMask, Bool.false_eq_true, if_false, UInt32.toBitVec_and, BitVec.getLsbD_and]
    cases requested.toBitVec.getLsbD i <;> simp
  | true =>
    simp only [negotiateMask, if_true, UInt32.toBitVec_and, UInt32.toBitVec_or, BitVec.getLsbD_and,
      BitVec.getLsbD_or]
    cases requested.toBitVec.getLsbD i <;> simp

theorem granted_mask_supported (requested : UInt32) (hasReconnect : Bool) :
    negotiateMask requested hasReconnect &&& (capsExMaskServerDefault ||| capsExMaskReconnect) =
      negotiateMask requested hasReconnect := by
  apply bits_ext
  intro i
  cases hasReconnect with
  | false =>
    simp only [negotiateMask, Bool.false_eq_true, if_false, UInt32.toBitVec_and,
      UInt32.toBitVec_or, BitVec.getLsbD_and, BitVec.getLsbD_or]
    cases capsExMaskServerDefault.toBitVec.getLsbD i <;> simp
  | true =>
    simp only [negotiateMask, if_true, UInt32.toBitVec_and, UInt32.toBitVec_or, BitVec.getLsbD_and,
      BitVec.getLsbD_or]
    cases capsExMaskServerDefault.toBitVec.getLsbD i <;>
      cases capsExMaskReconnect.toBitVec.getLsbD i <;> simp

theorem granted_reconnect {requested : UInt32} {hasReconnect : Bool}
    (h : negotiateMask requested hasReconnect &&& capsExMaskReconnect ≠ 0) :
    hasReconnect = true := by
  cases hasReconnect with
  | true => rfl
  | false =>
    refine absurd ?_ h
    change (requested &&& capsExMaskServerDefault) &&& capsExMaskReconnect = 0
    rw [UInt32.and_assoc]
    exact UInt32.and_zero

variable (h : connectRead (connectStart name number) members t)

include h

/-- The mask that is granted was asked for by a member that was accepted. -/
theorem mask_offered (hcaps : t.info.hasCapsEx = true) :
    ∃ m ∈ members, m.Accepted .capsEx ∧ SendsMask m.value t.info.capsEx.mask := by
  have hread : maskRead t = some t.info.capsEx.mask := by rw [maskRead, if_pos hcaps]
  rcases member_leaves maskRead (fun m p => m.Accepted .capsEx ∧
    ∃ mask, SendsMask m.value mask ∧ p = some mask) mask_step h with
    hsame | ⟨m, hm, haccepted, mask, hsent, hmask⟩
  · rw [hread] at hsame
    cases hsame
  · rw [hread] at hmask
    cases hmask
    exact ⟨m, hm, haccepted, hsent⟩

theorem reconnect_accepted (hreconnect : t.info.hasReconnect = true) :
    ∃ m ∈ members, m.Accepted .reconnect := by
  rcases member_leaves (fun t => t.info.hasReconnect) (fun m _ => m.Accepted .reconnect)
    reconnect_step h with hsame | hleft
  · rw [hreconnect] at hsame
    cases hsame
  · exact hleft

end Granting

/-- The codecs, flags and masks that are granted to a `connect` that can be read are among those
it offered, in its order, exactly when none of its codec strings only starts like the wildcard. -/
theorem granted_caps_were_offered (s : Buffer × ConnectOutput)
    (hok : (readConnectWithEncoding.on s).1 = .ok ()) :
    ∃ name number members tail codes keys, s.1.peek = connectPayload name number members tail ∧
      OffersRead members codes keys (readConnectWithEncoding.on s).2.2.info ∧
      (GrantsOffered members codes keys
          (negotiateCaps (readConnectWithEncoding.on s).2.2.info) ↔
        (∀ code ∈ codes, isStarred code = false) ∧
        ∀ k ∈ keys, isStarred k.1 = true → k.2 &&& fourCcInfoCanForward = 0) := by
  obtain ⟨name, number, members, tail, hpeek, -, -, -, hread⟩ := connect_is_read hok
  generalize (readConnectWithEncoding.on s).2.2 = t at hread
  obtain ⟨codes, -, hlist, hnames⟩ := list_offers hread
  obtain ⟨keys, hmap, hinfos⟩ := map_offers hread
  refine ⟨name, number, members, tail, codes, keys, hpeek, ⟨hlist, hmap⟩, ?_⟩
  rw [← names_granted_iff, ← keys_granted_iff, ← hnames, ← hinfos]
  constructor
  · intro h
    exact ⟨h.list, h.map⟩
  · rintro ⟨hl, hm⟩
    refine ⟨hl, ?_, hm, ?_, ?_, ?_, ?_⟩
    · intro cc hcc
      have hmem := List.mem_map_of_mem (f := fourccEntryBytes) hcc
      rw [hnames] at hmem
      obtain ⟨code, hcode, hname⟩ := List.mem_map.mp hmem
      have hgranted := (List.mem_filter.mp hcode).2
      rw [isGranted, Bool.and_eq_true] at hgranted
      exact hname ▸ hgranted.2
    · intro e he
      have hmem := List.mem_map_of_mem (f := fun e => (fourccEntryBytes e.1, e.2)) he
      rw [hinfos] at hmem
      obtain ⟨k, hk, hname⟩ := List.mem_map.mp hmem
      obtain ⟨hname, hmask⟩ := Prod.mk.inj hname
      have hgranted := (List.mem_filter.mp hk).2
      simp only [isGrantedKey, isGranted, Bool.and_eq_true, bne_iff_ne] at hgranted
      exact ⟨hname ▸ hgranted.1.2, hmask ▸ hgranted.2⟩
    · intro hmask
      cases hcaps : t.info.hasCapsEx with
      | false => simp [negotiateCaps, hcaps] at hmask
      | true =>
        obtain ⟨m, hm, haccepted, hsent⟩ := mask_offered hread hcaps
        refine ⟨m, hm, haccepted, _, hsent, ?_⟩
        simp only [negotiateCaps, hcaps, if_true]
        exact granted_mask_requested _ _
    · cases hcaps : t.info.hasCapsEx with
      | false => simp [negotiateCaps, hcaps]
      | true =>
        simp only [negotiateCaps, hcaps, if_true]
        exact granted_mask_supported _ _
    · intro hbit
      cases hcaps : t.info.hasCapsEx with
      | false => simp [negotiateCaps, hcaps] at hbit
      | true =>
        simp only [negotiateCaps, hcaps, if_true] at hbit
        exact reconnect_accepted hread (granted_reconnect hbit)

def starredList : ConnectMember :=
  ⟨CapField.fourCcList.name.toUTF8.data.toList,
    [0x0A, 0, 0, 0, 1, 0x02, 0, 4, 0x2A, 0x61, 0x62, 0x63]⟩

theorem avc_list_granted : (readWith [avcList]).1 = .ok () ∧
    ∃ name number members tail codes keys,
      connectPayload "connect".toUTF8.data.toList 0x3FF0000000000000 [avcList] [] =
        connectPayload name number members tail ∧
      OffersRead members codes keys (readWith [avcList]).2.2.info := by
  have hok : (readWith [avcList]).1 = .ok () := by decide +kernel
  refine ⟨hok, ?_⟩
  unfold readWith at hok ⊢
  obtain ⟨name, number, members, tail, codes, keys, hpeek, hread, -⟩ :=
    granted_caps_were_offered _ hok
  refine ⟨name, number, members, tail, codes, keys, ?_, hread⟩
  rw [← hpeek, peek_buffer_of (by decide)]

/-- The string `*abc` is granted as the wildcard. -/
theorem starred_string_granted_wildcard :
    ListOffers starredList.value [[0x2A, 0x61, 0x62, 0x63]] ∧
    (readWith [starredList]).1 = .ok () ∧
    (negotiateCaps (readWith [starredList]).2.2.info).fourCcList.map fourccEntryBytes =
      [[0x2A]] := by
  refine ⟨?_, ?_, ?_⟩
  · exact @ListOffers.array 1 [[0x2A, 0x61, 0x62, 0x63]] (Nat.le_refl 1) []
  · decide +kernel
  · decide +kernel

end LibRtmp.Proofs
