import Mathlib.Data.List.TakeWhile
import LibRtmp.Media.ColorInfo
import LibRtmp.Proofs.AmfSkip

namespace LibRtmp.Proofs

open Actions Parsing Amf0

variable {depth : Nat} {members : ColorFields} {color : ColorKey}

section Encodings

mutual

/-- A tree within the limits is encoded by a value. -/
theorem color_tree_value : ∀ (t : ColorTree) (depth : Nat), t.Fits depth → Value depth t.bytes
  | .number bits, depth, _ => Value.scalar (.number (Bytes.to_be_length 8 _)) depth
  | .undefined, depth, _ => Value.scalar .undefined depth
  | .object members, depth + 1, h =>
    Value.container (.object h.1 (color_fields_members members depth h.2))
  | .other ty body, depth, h => by
    cases depth <;> exact ⟨ty, body, rfl, h.1⟩

theorem color_fields_members : ∀ (members : ColorFields) (depth : Nat), members.Fits depth →
    Members (Value depth) members.toList.length members.bytes
  | .nil, _, _ => .nil
  | .cons key value members, depth, h =>
    .cons (Nat.lt_trans h.1 (by decide)) (color_tree_value value depth h.2.1)
      (color_fields_members members depth h.2.2.1)

end

theorem reads_object_key {key : List UInt8} (h : key.length < 64) :
    Reads Buffer.peek (readObjectKey 64) (Bytes.toBe 2 key.length ++ key) key := by
  refine (reads_be .io (Nat.lt_trans h (by decide))).bind ?_
  rw [if_neg (Nat.not_le.mpr h)]
  exact reads_bytes .amf rfl

end Encodings

section Found

/-- A scan to the end yields its own color numbers, or else the last nested result. -/
def scanReading : Nat → List ColorMember → Option HdrInfo
  | depth, members =>
    if members.any (fun m => m.own.isSome) then some (ownInfo members)
    else
      match depth with
      | 0 => none
      | depth + 1 => ((members.filterMap ColorMember.config).filterMap (scanReading depth)).getLast?

def found (depth : Nat) (seen : List ColorMember) : ColorScan where
  hdr := ownInfo seen
  foundDirect := seen.any (fun m => m.own.isSome)
  nestedResult :=
    match depth with
    | 0 => none
    | depth + 1 => ((seen.filterMap ColorMember.config).filterMap (scanReading depth)).getLast?

variable {depth : Nat} {seen : List ColorMember} {m : ColorMember}

theorem finish_found (b : Buffer) :
    ∃ res, (found depth seen).finish.on b = (res, b) ∧ res.toOption = scanReading depth seen := by
  have hreading : scanReading depth seen =
      if (seen.any fun m => m.own.isSome) = true then some (ownInfo seen)
      else (found depth seen).nestedResult := by
    rw [scanReading.eq_def]
    rfl
  rw [hreading, ColorScan.finish]
  generalize (found depth seen).nestedResult = nested
  change ∃ res, Action.on (if (seen.any fun m => m.own.isSome) = true then pure (ownInfo seen)
    else _) b = _ ∧ _
  split
  · exact ⟨_, rfl, rfl⟩
  · cases nested with
    | none => exact ⟨_, rfl, rfl⟩
    | some inner => exact ⟨_, rfl, rfl⟩

theorem own_not_config (h : m.own ≠ none) : m.config = none := by
  obtain ⟨key, value⟩ := m
  cases value <;> simp_all [ColorMember.own, ColorMember.config]

theorem own_value_saw (color : ColorKey) : ownValue (seen ++ [m]) color =
    (m.own.bind (fun o => if o.1 = color then o.2 else none)).or (ownValue seen color) := by
  unfold ownValue
  rw [List.filterMap_append, List.getLast?_append]
  congr 1
  cases h : m.own.bind (fun o => if o.1 = color then o.2 else none) <;> simp [h]

theorem found_own {value : Nat} (h : m.own = some (color, some value)) :
    found depth (seen ++ [m]) =
      { found depth seen with hdr := (ownInfo seen).set color value, foundDirect := true } := by
  have hconfig : m.config = none := own_not_config (by rw [h]; exact Option.some_ne_none _)
  have hhdr : ownInfo (seen ++ [m]) = (ownInfo seen).set color value := by
    unfold ownInfo
    simp only [own_value_saw, h]
    cases color <;> simp [HdrInfo.set]
  unfold found
  rw [hhdr]
  cases depth <;> simp [h, hconfig]

theorem own_info_same (h : m.own = none) : ownInfo (seen ++ [m]) = ownInfo seen := by
  unfold ownInfo
  simp only [own_value_saw, h, Option.bind_none, Option.none_or]

theorem found_same (h : m.own = none) (hconfig : depth = 0 ∨ m.config = none) :
    found depth (seen ++ [m]) = found depth seen := by
  unfold found
  rw [own_info_same h]
  rcases hconfig with rfl | hconfig
  · simp [h]
  · cases depth <;> simp [h, hconfig]

def withNested (st : ColorScan) : Except ErrorCode HdrInfo → ColorScan
  | .ok inner => { st with nestedResult := some inner }
  | .error _ => st

theorem found_nested {key : List UInt8} {members : ColorFields} (hk : isConfigKey key = true)
    {res : Except ErrorCode HdrInfo} (hres : res.toOption = scanReading depth members.toList) :
    found (depth + 1) (seen ++ [(key, .object members)]) =
      withNested (found (depth + 1) seen) res := by
  have hown : ColorMember.own (key, .object members) = none := rfl
  have hconfig : ColorMember.config (key, .object members) = some members.toList := by
    rw [ColorMember.config, if_pos hk]
  unfold found
  rw [own_info_same hown]
  cases res with
  | ok hdr =>
    have hread : scanReading depth members.toList = some hdr := hres.symm
    simp [hown, hconfig, hread, withNested]
  | error e =>
    have hread : scanReading depth members.toList = none := hres.symm
    simp [hown, hconfig, hread, withNested]

end Found

section Values

def scanOf : Nat → Option (ReadM HdrInfo)
  | 0 => none
  | depth + 1 => some (scanObjectForColorInfo depth)

theorem scan_object_eq (depth : Nat) :
    scanObjectForColorInfo depth = scanMembers (scanOf depth) maxObjectKeys (found depth []) := by
  cases depth <;> rfl

theorem on_scan_members (scan : Option (ReadM HdrInfo)) (keys : Nat) (st : ColorScan) (b : Buffer) :
    (scanMembers scan keys st).on b =
      if isObjectEnd b then (readBytes .io 3 >>= fun _ => st.finish).on b
      else
        match keys with
        | 0 => (.error .amf, b)
        | keys + 1 =>
          (readObjectKey 64 >>= fun key => readType >>= fun ty =>
            scanValue scan (scanMembers scan keys) st key ty).on b := by
  unfold scanMembers
  rw [Action.on_bind, Action.on_get]
  dsimp only
  split
  · rfl
  · cases keys <;> rfl

variable {scan : Option (ReadM HdrInfo)} {next : ColorScan → ReadM HdrInfo} {st : ColorScan}
  {key : List UInt8} {b : Buffer} {rest : List UInt8}

/-- A value of another kind is skipped. -/
theorem scan_value_skips {ty : Amf0Type} {body : List UInt8} (hbody : Body maxSkipDepth ty body)
    (hreset : ¬ (key = colorInfoKey ∧ (ty = .undefined ∨ ty = .object ∧ isObjectEnd b)))
    (hnumber : ty = .number → ColorKey.ofKey key = none)
    (hobject : ty = .object → isConfigKey key = true → scan = none) (hb : b.peek = body ++ rest) :
    ∃ b' : Buffer, b'.peek = rest ∧ (scanValue scan next st key ty).on b = (next st).on b' := by
  obtain ⟨b', hb', hon⟩ := (reads_body _ ty body hbody).then_on (fun _ => next st) hb
  refine ⟨b', hb', ?_⟩
  rw [← hon]
  unfold scanValue
  rw [Action.on_bind, Action.on_get]
  dsimp only
  rw [if_neg hreset]
  cases ty with
  | number =>
    rw [hnumber rfl]
  | object =>
    cases scan with
    | none => rfl
    | some nested =>
      have hk : ¬ isConfigKey key = true := fun hk => Option.some_ne_none _ (hobject rfl hk)
      dsimp only
      rw [if_neg hk]
  | _ => rfl

theorem scan_value_resets {ty : Amf0Type} (hk : key = colorInfoKey)
    (hty : ty = .undefined ∨ ty = .object ∧ isObjectEnd b) :
    (scanValue scan next st key ty).on b = (.ok resetHdrInfo, b) := by
  unfold scanValue
  rw [Action.on_bind, Action.on_get]
  dsimp only
  rw [if_pos ⟨hk, hty⟩]
  rfl

theorem scan_value_number (hcolor : ColorKey.ofKey key = some color)
    {bits : UInt64} (hb : b.peek = Bytes.toBe 8 bits.toNat ++ rest) :
    ∃ b' : Buffer, b'.peek = rest ∧ (scanValue scan next st key .number).on b =
      match colorNumber bits.toNat with
      | none => (.error .amf, b')
      | some value =>
        (next { st with hdr := st.hdr.set color value, foundDirect := true }).on b' := by
  obtain ⟨b', hb', hon⟩ := (reads_be .io (n := 8) bits.toNat_lt).then_on
    (fun bits => match colorNumber bits with
      | none => (throw .amf : ReadM HdrInfo)
      | some value => next { st with hdr := st.hdr.set color value, foundDirect := true }) hb
  refine ⟨b', hb', ?_⟩
  unfold scanValue
  rw [Action.on_bind, Action.on_get]
  dsimp only
  rw [if_neg (by simp), hcolor]
  refine hon.trans ?_
  cases colorNumber bits.toNat <;> rfl

theorem scan_value_nested {nested : ReadM HdrInfo} (hk : isConfigKey key = true)
    (hreset : ¬ (key = colorInfoKey ∧ isObjectEnd b)) :
    (scanValue (some nested) next st key .object).on b =
      (next (withNested st (nested.on b).1)).on (nested.on b).2 := by
  unfold scanValue
  rw [Action.on_bind, Action.on_get]
  dsimp only
  rw [if_neg (by simpa using hreset), if_pos hk, Action.on_bind, Action.on_attempt]
  dsimp only
  cases (nested.on b).1 <;> rfl

/-- Among integers, the color numbers are those of 16 bits. -/
theorem own_number (hcolor : ColorKey.ofKey key = some color) {bits : UInt64}
    (hint : Double.toInt? bits.toNat ≠ none) :
    ColorMember.own (key, .number bits) = some (color, colorNumber bits.toNat) := by
  obtain ⟨n, hn⟩ := Option.ne_none_iff_exists'.mp hint
  rw [ColorMember.own, hcolor, colorNumber, Double.to_nat_up_to_int hn, hn]
  by_cases hrange : 0 ≤ n ∧ n ≤ 65535 <;> simp [Option.filter, hrange]

end Values

section Objects

variable {rest : List UInt8} {key : List UInt8}

theorem member_no_end {v : List UInt8} (hk : key.length < 64) (hv : Value depth v)
    {b : Buffer} (hb : b.peek = Bytes.toBe 2 key.length ++ (key ++ (v ++ rest))) :
    isObjectEnd b = false := by
  rw [isObjectEnd, hb]
  exact beq_eq_false_iff_ne.mpr
    (member_not_end (value_marked depth) rest (Nat.lt_trans hk (by decide)) hv)

/-- An object whose marker has been read is at its end if it is empty. -/
theorem fields_end (h : members.Fits depth) {b : Buffer}
    (hb : b.peek = members.bytes ++ rest) : isObjectEnd b = true ↔ members = .nil := by
  cases members with
  | nil =>
    rw [isObjectEnd, hb]
    exact ⟨fun _ => rfl, fun _ => rfl⟩
  | cons key value members =>
    rw [ColorFields.bytes, List.append_assoc, List.append_assoc, List.append_assoc] at hb
    rw [member_no_end h.1 (color_tree_value value depth h.2.1) hb]
    simp

theorem object_undecided (h : ColorMember.decides (key, .object members) = none) :
    ¬ (key = colorInfoKey ∧ members = .nil) := by
  rintro ⟨hk, rfl⟩
  simp [ColorMember.decides, ColorMember.own, hk] at h

/-- The scan of a member reads its key and its marker and goes on with its value. -/
theorem scan_members_value (scan : Option (ReadM HdrInfo)) (keys : Nat) (st : ColorScan)
    {depth : Nat} {ty : Amf0Type} {body : List UInt8} (hk : key.length < 64)
    (hv : Value depth (ty.marker :: body)) {b : Buffer}
    (hb : b.peek = Bytes.toBe 2 key.length ++ (key ++ (ty.marker :: body ++ rest))) :
    ∃ b' : Buffer, b'.peek = body ++ rest ∧ (scanMembers scan (keys + 1) st).on b =
      (scanValue scan (scanMembers scan keys) st key ty).on b' := by
  have hend : ¬ isObjectEnd b = true := by
    rw [member_no_end hk hv hb]
    exact Bool.false_ne_true
  rw [on_scan_members, if_neg hend]
  rw [← List.append_assoc] at hb
  obtain ⟨b₁, hb₁, hon₁⟩ := (reads_object_key hk).then_on (fun key => readType >>= fun ty =>
    scanValue scan (scanMembers scan keys) st key ty) hb
  obtain ⟨b₂, hb₂, hon₂⟩ := (reads_type ty).then_on (fun ty =>
    scanValue scan (scanMembers scan keys) st key ty)
    (show b₁.peek = [ty.marker] ++ (body ++ rest) from hb₁)
  exact ⟨b₂, hb₂, hon₁.trans hon₂⟩

theorem scans_through_of_mem {members members' : List ColorMember}
    (h : ScansThrough depth members) (hsub : ∀ m ∈ members', m ∈ members) :
    ScansThrough depth members' := by
  cases depth with
  | zero => exact trivial
  | succ depth => exact fun m hm => h m (hsub m hm)

structure NextMember (key : List UInt8) (value : ColorTree) (depth : Nat) (rest : List UInt8)
    (b : Buffer) : Prop where
  shallow : depth ≤ maxSkipDepth
  short : key.length < 64
  fits : value.Fits depth
  integral : ColorKey.ofKey key ≠ none → ∀ bits, value = .number bits →
    Double.toInt? bits.toNat ≠ none
  next : b.peek = Bytes.toBe 2 key.length ++ (key ++ (value.bytes ++ rest))

/-- A value that is skipped adds nothing to what the scan knows. -/
theorem NextMember.skips (level keys : Nat) (seen : List ColorMember) {depth : Nat}
    {value : ColorTree} {b : Buffer} (h : NextMember key value depth rest b) {ty : Amf0Type}
    {body : List UInt8} (hbytes : value.bytes = ty.marker :: body) (hbody : Body depth ty body)
    (hown : ColorMember.own (key, value) = none)
    (hconfig : level = 0 ∨ ColorMember.config (key, value) = none)
    (hreset : ∀ b : Buffer, b.peek = body ++ rest →
      ¬ (key = colorInfoKey ∧ (ty = .undefined ∨ ty = .object ∧ isObjectEnd b)))
    (hnumber : ty = .number → ColorKey.ofKey key = none)
    (hobject : ty = .object → isConfigKey key = true → level = 0) :
    ∃ b' : Buffer, b'.peek = rest ∧
      (scanMembers (scanOf level) (keys + 1) (found level seen)).on b =
        (scanMembers (scanOf level) keys (found level (seen ++ [(key, value)]))).on b' := by
  have hvalue := color_tree_value value depth h.fits
  have hnext := h.next
  rw [hbytes] at hvalue hnext
  obtain ⟨b₁, hb₁, hon₁⟩ := scan_members_value (scanOf level) keys (found level seen)
    h.short hvalue hnext
  have hnone : ty = .object → isConfigKey key = true → scanOf level = none := by
    intro hty hk
    rw [hobject hty hk]
    rfl
  obtain ⟨b₂, hb₂, hon₂⟩ := scan_value_skips (Body.deeper hbody h.shallow) (hreset b₁ hb₁) hnumber
    hnone hb₁
  refine ⟨b₂, hb₂, ?_⟩
  rw [hon₁, hon₂, found_same hown hconfig]

/-- A number: it is a color number in range, or decides, or is skipped. -/
theorem NextMember.number {level keys depth : Nat} {seen : List ColorMember} {bits : UInt64}
    {b : Buffer} (h : NextMember key (.number bits) depth rest b) :
    (ColorMember.decides (key, .number bits) = none → ∃ b' : Buffer, b'.peek = rest ∧
      (scanMembers (scanOf level) (keys + 1) (found level seen)).on b =
        (scanMembers (scanOf level) keys (found level (seen ++ [(key, .number bits)]))).on b') ∧
    (ColorMember.decides (key, .number bits) ≠ none →
      ColorMember.decides (key, .number bits) = some none ∧
      ((scanMembers (scanOf level) (keys + 1) (found level seen)).on b).1.toOption = none) := by
  cases hcolor : ColorKey.ofKey key with
  | none =>
    have hown : ColorMember.own (key, .number bits) = none := by simp [ColorMember.own, hcolor]
    refine ⟨fun _ => ?_, fun hm => absurd (by simp [ColorMember.decides, hown]) hm⟩
    exact h.skips level keys seen rfl (Body.scalar (.number (Bytes.to_be_length 8 _)) _) hown
      (.inr rfl) (by simp) (fun _ => hcolor) (by simp)
  | some color =>
    have hown := own_number hcolor
      (h.integral (by rw [hcolor]; exact Option.some_ne_none _) bits rfl)
    obtain ⟨b₁, hb₁, hon₁⟩ := scan_members_value (scanOf level) keys (found level seen)
      h.short (color_tree_value (.number bits) depth h.fits) h.next
    obtain ⟨b₂, hb₂, hon₂⟩ := scan_value_number hcolor hb₁
    rw [hon₁, hon₂]
    cases hvalue : colorNumber bits.toNat with
    | none =>
      rw [hvalue] at hown
      have hm : ColorMember.decides (key, .number bits) = some none := by
        simp [ColorMember.decides, hown]
      exact ⟨fun hnone => absurd (hm.symm.trans hnone) (Option.some_ne_none _), fun _ => ⟨hm, rfl⟩⟩
    | some value =>
      rw [hvalue] at hown
      refine ⟨fun _ => ⟨b₂, hb₂, ?_⟩, fun hm => absurd (by simp [ColorMember.decides, hown]) hm⟩
      rw [found_own hown]
      rfl

/-- A member that decides ends the scan with what it gives. -/
theorem NextMember.decided {level keys depth : Nat} {seen : List ColorMember} {value : ColorTree}
    {b : Buffer} (h : NextMember key value depth rest b) {reading : Option HdrInfo}
    (hm : ColorMember.decides (key, value) = some reading) :
    ((scanMembers (scanOf level) (keys + 1) (found level seen)).on b).1.toOption = reading := by
  cases value with
  | number bits =>
    obtain ⟨hnone, hres⟩ := h.number.2 (by rw [hm]; exact Option.some_ne_none _)
    rw [hres]
    exact Option.some.inj (hnone.symm.trans hm)
  | undefined =>
    have hkey : key = colorInfoKey ∧ some resetHdrInfo = reading := by
      simpa [ColorMember.decides, ColorMember.own] using hm
    obtain ⟨b₁, -, hon⟩ := scan_members_value (scanOf level) keys (found level seen)
      h.short (color_tree_value .undefined depth h.fits) h.next
    rw [hon, scan_value_resets hkey.1 (.inl rfl)]
    exact hkey.2
  | object members =>
    cases members with
    | cons key' value' members => cases hm
    | nil =>
      have hkey : key = colorInfoKey ∧ some resetHdrInfo = reading := by
        simpa [ColorMember.decides, ColorMember.own] using hm
      obtain ⟨b₁, hb₁, hon⟩ := scan_members_value (scanOf level) keys (found level seen)
        h.short (color_tree_value (.object .nil) depth h.fits) h.next
      have hend : isObjectEnd b₁ = true := by
        rw [isObjectEnd, hb₁]
        rfl
      rw [hon, scan_value_resets hkey.1 (.inr ⟨rfl, hend⟩)]
      exact hkey.2
  | other ty body => cases hm

theorem undecided_whole {members : List ColorMember} (h : ∀ m ∈ members, m.decides = none) :
    undecidedPart members = members ∧ members.findSome? ColorMember.decides = none :=
  ⟨List.takeWhile_eq_self_iff.mpr fun m hm => by rw [h m hm]; rfl, List.findSome?_eq_none_iff.mpr h⟩

mutual

/-- The scan goes over a member that does not decide, and over the whole of it. -/
theorem tree_scan : ∀ (value : ColorTree) (key : List UInt8) (level keys depth : Nat)
    (seen : List ColorMember) (rest : List UInt8) (b : Buffer),
    NextMember key value depth rest b → ColorMember.decides (key, value) = none →
    ScansThrough level [(key, value)] →
    ∃ b' : Buffer, b'.peek = rest ∧
      (scanMembers (scanOf level) (keys + 1) (found level seen)).on b =
        (scanMembers (scanOf level) keys (found level (seen ++ [(key, value)]))).on b'
  | .number bits, key, level, keys, depth, seen, rest, b, h, hm, _ => h.number.1 hm
  | .undefined, key, level, keys, depth, seen, rest, b, h, hm, _ => by
    have hkey : key ≠ colorInfoKey := by
      rintro rfl
      simp [ColorMember.decides, ColorMember.own] at hm
    exact h.skips level keys seen rfl (Body.scalar .undefined depth) rfl (.inr rfl)
      (fun _ _ hreset => hkey hreset.1) (by simp) (by simp)
  | .object members, key, level, keys, 0, seen, rest, b, h, _, _ => h.fits.elim
  | .object members, key, level, keys, depth + 1, seen, rest, b, h, hm, hthrough => by
    have hopen : ∀ b : Buffer, b.peek = members.bytes ++ rest →
        ¬ (key = colorInfoKey ∧ isObjectEnd b = true) := by
      rintro b hb ⟨hkey, hend⟩
      exact object_undecided hm ⟨hkey, (fields_end h.fits.2 hb).mp hend⟩
    have hskips (hconfig : isConfigKey key = true → level = 0) := by
      refine h.skips level keys seen rfl
        (.inr (.object h.fits.1 (color_fields_members members depth h.fits.2))) rfl ?_ ?_ (by simp)
        (fun _ => hconfig)
      · by_cases hkey : isConfigKey key = true
        · exact .inl (hconfig hkey)
        · exact .inr (by simp [ColorMember.config, hkey])
      · intro b hb
        simpa using hopen b hb
    cases level with
    | zero => exact hskips (fun _ => rfl)
    | succ level =>
      by_cases hkey : isConfigKey key = true
      · have hconfig : ColorMember.config (key, .object members) = some members.toList := by
          rw [ColorMember.config, if_pos hkey]
        obtain ⟨hund, hinner⟩ := hthrough _ (List.mem_singleton.mpr rfl) _ hconfig
        obtain ⟨b₁, hb₁, hon₁⟩ := scan_members_value (scanOf (level + 1)) keys
          (found (level + 1) seen) h.short
          (color_tree_value (.object members) (depth + 1) h.fits) h.next
        obtain ⟨hwhole, hnone⟩ := undecided_whole hund
        obtain ⟨hres, hpeek⟩ := fields_scan members level maxObjectKeys depth [] rest b₁
          (Nat.le_of_succ_le h.shallow) h.fits.2 (by rwa [hwhole]) h.fits.1 hb₁
        rw [hnone] at hres
        refine ⟨_, hpeek hund, ?_⟩
        rw [hon₁, scanOf, scan_value_nested hkey (hopen b₁ hb₁), scan_object_eq]
        generalize (scanMembers (scanOf level) maxObjectKeys (found level [])).on b₁ = r at hres ⊢
        obtain ⟨res, b₂⟩ := r
        dsimp only at hres ⊢
        rw [found_nested hkey hres]
      · exact hskips (fun hk => absurd hk hkey)
  | .other ty body, key, level, keys, depth, seen, rest, b, h, _, _ => by
    have hother : Body depth ty body ∧ ty ≠ .number ∧ ty ≠ .undefined ∧ ty ≠ .object := by
      have hfits := h.fits
      cases depth <;> exact hfits
    obtain ⟨hbody, hnumber, hundefined, hobject⟩ := hother
    exact h.skips level keys seen rfl hbody rfl (.inr rfl) (by simp [hundefined, hobject])
      (fun hty => absurd hty hnumber) (fun hty => absurd hty hobject)

/-- The scan of an object goes on to the first member that decides, or to the end. -/
theorem fields_scan : ∀ (members : ColorFields) (level keys depth : Nat)
    (seen : List ColorMember) (rest : List UInt8) (b : Buffer), depth ≤ maxSkipDepth →
    members.Fits depth → ScansThrough level (undecidedPart members.toList) →
    members.toList.length ≤ keys → b.peek = members.bytes ++ rest →
    ((scanMembers (scanOf level) keys (found level seen)).on b).1.toOption =
        (members.toList.findSome? ColorMember.decides).getD
          (scanReading level (seen ++ members.toList)) ∧
      ((∀ m ∈ members.toList, m.decides = none) →
        ((scanMembers (scanOf level) keys (found level seen)).on b).2.peek = rest)
  | .nil, level, keys, depth, seen, rest, b, _, _, _, _, hb => by
    have hend : isObjectEnd b = true := by
      rw [isObjectEnd, hb]
      rfl
    obtain ⟨b', hb', hon⟩ := (reads_bytes .io (n := 3) (d := objectEndMarker) rfl).then_on
      (fun _ => (found level seen).finish) hb
    obtain ⟨res, hfinish, hres⟩ := @finish_found level seen b'
    rw [on_scan_members, if_pos hend, hon, hfinish, ColorFields.toList, List.append_nil]
    exact ⟨hres, fun _ => hb'⟩
  | .cons key value members, level, 0, depth, seen, rest, b, _, _, _, hlen, _ =>
    absurd hlen (Nat.not_succ_le_zero _)
  | .cons key value members, level, keys + 1, depth, seen, rest, b, hdepth, hfits, hthrough,
      hlen, hb => by
    rw [ColorFields.toList] at hthrough hlen ⊢
    rw [ColorFields.bytes, List.append_assoc, List.append_assoc, List.append_assoc] at hb
    have hnext : NextMember key value depth (members.bytes ++ rest) b :=
      ⟨hdepth, hfits.1, hfits.2.1, hfits.2.2.2, hb⟩
    cases hm : ColorMember.decides (key, value) with
    | some reading =>
      rw [hnext.decided hm, List.findSome?_cons, hm]
      exact ⟨rfl, fun hund =>
        absurd (hm.symm.trans (hund _ List.mem_cons_self)) (Option.some_ne_none _)⟩
    | none =>
      have hpart : undecidedPart ((key, value) :: members.toList) =
          (key, value) :: undecidedPart members.toList := by
        rw [undecidedPart, List.takeWhile_cons, hm]
        rfl
      rw [hpart] at hthrough
      obtain ⟨b₁, hb₁, hon₁⟩ := tree_scan value key level keys depth seen (members.bytes ++ rest) b
        hnext hm (scans_through_of_mem hthrough (by simp))
      obtain ⟨hres, hpeek⟩ := fields_scan members level keys depth (seen ++ [(key, value)]) rest b₁
        hdepth hfits.2.2.1 (scans_through_of_mem hthrough (fun _ => List.mem_cons_of_mem _))
        (Nat.le_of_succ_le_succ hlen) hb₁
      rw [hon₁, List.findSome?_cons, hm]
      refine ⟨?_, fun hund => hpeek fun m hm => hund m (List.mem_cons_of_mem _ hm)⟩
      rw [hres, List.append_assoc, List.singleton_append]

end

end Objects

section Agreement

theorem parse_scans (hfits : members.Fits maxSkipDepth)
    (hfew : members.toList.length ≤ maxObjectKeys)
    (hthrough : ScansThrough 2 (undecidedPart members.toList))
    (h : (Amf0Type.object.marker :: members.bytes).length ≤ isizeMax) :
    parseColorInfoAmf (Amf0Type.object.marker :: members.bytes) h =
      (members.toList.findSome? ColorMember.decides).getD (scanReading 2 members.toList) := by
  have hpeek : (Buffer.fromSlice (Amf0Type.object.marker :: members.bytes) h).peek =
      [Amf0Type.object.marker] ++ members.bytes := Buffer.peek_from_slice _ h
  obtain ⟨b, hb, hread⟩ : ∃ b : Buffer, b.peek = members.bytes ∧
      readColorInfo.on (Buffer.fromSlice _ h) = (scanObjectForColorInfo 2).on b :=
    (reads_type .object).then_on _ hpeek
  rw [parseColorInfoAmf, hread, scan_object_eq]
  exact (fields_scan members 2 maxObjectKeys maxSkipDepth [] [] b (Nat.le_refl _) hfits hthrough
    hfew (by rw [hb, List.append_nil])).1

theorem any_some_get_last {α β : Type*} (f : α → Option β) (xs : List α) :
    (xs.filterMap f).getLast?.isSome = xs.any (fun x => (f x).isSome) := by
  induction xs with
  | nil => rfl
  | cons x xs ih =>
    cases hx : f x with
    | none => rw [List.filterMap_cons_none hx, ih, List.any_cons, hx, Option.isSome_none,
        Bool.false_or]
    | some y => simp [hx, List.getLast?_cons]

/-- A scan to the end yields something when the object carries a color number. -/
theorem scan_reading_some (depth : Nat) : ∀ members : List ColorMember,
    (scanReading depth members).isSome = carriesColor depth members := by
  induction depth with
  | zero =>
    intro members
    unfold scanReading carriesColor
    cases members.any (fun m => m.own.isSome) <;> rfl
  | succ depth ih =>
    intro members
    unfold scanReading carriesColor
    cases members.any (fun m => m.own.isSome) with
    | true => rfl
    | false =>
      rw [if_neg Bool.false_ne_true, Bool.false_or, any_some_get_last]
      simp only [ih]

variable {depth : Nat} {members : List ColorMember}

theorem undecided_valid (hund : ∀ m ∈ members, m.decides = none) : validConfig members = true := by
  refine List.all_eq_true.mpr fun m hm => ?_
  have hm := hund m hm
  cases hown : m.own with
  | none => rfl
  | some o =>
    obtain ⟨color, value⟩ := o
    cases value with
    | none => simp [ColorMember.decides, hown] at hm
    | some value => rfl

theorem nested_scans_through (h : ScansThrough (depth + 1) members) {inner : List ColorMember}
    (hinner : inner ∈ members.filterMap ColorMember.config) :
    (∀ m ∈ inner, m.decides = none) ∧ ScansThrough depth inner := by
  obtain ⟨m, hm, hconfig⟩ := List.mem_filterMap.mp hinner
  exact h m hm inner hconfig

/-- Without deciding members the last nested configuration object is the last valid one. -/
theorem undecided_reading (hund : ∀ m ∈ members, m.decides = none)
    (hthrough : ScansThrough (depth + 1) members) :
    colorReading (depth + 1) members =
      if (members.any fun m => m.own.isSome) = true then some (ownInfo members)
      else (members.filterMap ColorMember.config).getLast?.bind (colorReading depth) := by
  have hvalid : (members.filterMap ColorMember.config).filter validConfig =
      members.filterMap ColorMember.config :=
    List.filter_eq_self.mpr fun inner hinner => undecided_valid (nested_scans_through hthrough hinner).1
  rw [colorReading, List.findSome?_eq_none_iff.mpr hund]
  dsimp only
  rw [hvalid]

theorem undecided_reading_zero (hund : ∀ m ∈ members, m.decides = none) :
    colorReading 0 members =
      if (members.any fun m => m.own.isSome) = true then some (ownInfo members) else none := by
  rw [colorReading, List.findSome?_eq_none_iff.mpr hund]

/-- An object yields nothing unless it carries a color number. -/
theorem reading_carried (depth : Nat) : ∀ members : List ColorMember,
    (∀ m ∈ members, m.decides = none) → ScansThrough depth members →
    carriesColor depth members = false → colorReading depth members = none := by
  induction depth with
  | zero =>
    intro members hund _ hnone
    rw [carriesColor, Bool.or_false] at hnone
    rw [undecided_reading_zero hund, hnone, if_neg Bool.false_ne_true]
  | succ depth ih =>
    intro members hund hthrough hnone
    rw [carriesColor, Bool.or_eq_false_iff] at hnone
    rw [undecided_reading hund hthrough, hnone.1, if_neg Bool.false_ne_true]
    cases hlast : (members.filterMap ColorMember.config).getLast? with
    | none => rfl
    | some last =>
      have hmem := List.mem_of_getLast? hlast
      obtain ⟨hund', hthrough'⟩ := nested_scans_through hthrough hmem
      have hcarries : carriesColor depth last = false := by
        simpa using List.any_eq_false.mp hnone.2 last hmem
      exact ih last hund' hthrough' hcarries

/-- The scans to the end give the reference reading exactly when the last nested object counts. -/
theorem scan_reading_iff (depth : Nat) : ∀ members : List ColorMember,
    (∀ m ∈ members, m.decides = none) → ScansThrough depth members →
    (scanReading depth members = colorReading depth members ↔ lastCarries depth members = true) := by
  -- Induction on the levels left. If the last nested object carries a color number, both readings
  -- are those of that object; if not, the reference has none, and the scan the last other one.
  induction depth with
  | zero =>
    intro members hund _
    rw [undecided_reading_zero hund, scanReading, lastCarries]
    simp
  | succ depth ih =>
    intro members hund hthrough
    rw [undecided_reading hund hthrough, scanReading, lastCarries]
    cases members.any (fun m => m.own.isSome) with
    | true => simp
    | false =>
      rw [if_neg Bool.false_ne_true, if_neg Bool.false_ne_true, Bool.false_or]
      have hnested := fun inner (h : inner ∈ members.filterMap ColorMember.config) =>
        nested_scans_through hthrough h
      generalize members.filterMap ColorMember.config = configs at hnested
      cases hlast : configs.getLast? with
      | none =>
        rw [List.getLast?_eq_none_iff.mp hlast]
        simp
      | some last =>
        obtain ⟨first, rfl⟩ := List.getLast?_eq_some_iff.mp hlast
        obtain ⟨hund', hthrough'⟩ := hnested last (by simp)
        have hsome := scan_reading_some depth last
        rw [Option.bind_some, List.filterMap_append, List.getLast?_append]
        dsimp only
        cases hcarries : carriesColor depth last with
        | true =>
          rw [hcarries] at hsome
          obtain ⟨hdr, hhdr⟩ := Option.isSome_iff_exists.mp hsome
          rw [if_pos rfl, ← ih last hund' hthrough', hhdr]
          simp [hhdr]
        | false =>
          rw [hcarries, Option.isSome_eq_false_iff, Option.isNone_iff_eq_none] at hsome
          rw [reading_carried depth last hund' hthrough' hcarries, if_neg Bool.false_ne_true]
          have hnone (inner : List ColorMember) : scanReading depth inner = none ↔
              carriesColor depth inner = false := by
            rw [← scan_reading_some, Option.isSome_eq_false_iff, Option.isNone_iff_eq_none]
          simp [hsome, hcarries, hnone]

end Agreement

/-- When no nested configuration object in front of the first deciding member has a deciding
member itself, the color info read from an object is its reference reading exactly if it has a
deciding member, or at each level the last nested object carries a color number or none does. -/
theorem color_info_reading (members : ColorFields) (hfits : members.Fits maxSkipDepth)
    (hfew : members.toList.length ≤ maxObjectKeys)
    (h : (Amf0Type.object.marker :: members.bytes).length ≤ isizeMax)
    (hthrough : ScansThrough 2 (undecidedPart members.toList)) :
    parseColorInfoAmf (Amf0Type.object.marker :: members.bytes) h =
        colorReading 2 members.toList ↔
      (∃ m ∈ members.toList, m.decides ≠ none) ∨ lastCarries 2 members.toList = true := by
  rw [parse_scans hfits hfew hthrough h]
  by_cases hdecided : ∃ m ∈ members.toList, m.decides ≠ none
  · refine ⟨fun _ => .inl hdecided, fun _ => ?_⟩
    obtain ⟨reading, hreading⟩ := Option.isSome_iff_exists.mp
      (List.findSome?_isSome_iff.mpr (hdecided.imp fun m hm =>
        ⟨hm.1, Option.isSome_iff_ne_none.mpr hm.2⟩))
    rw [colorReading, hreading]
    rfl
  · have hund : ∀ m ∈ members.toList, m.decides = none := by
      intro m hm
      by_contra hne
      exact hdecided ⟨m, hm, hne⟩
    have hpart : undecidedPart members.toList = members.toList :=
      List.takeWhile_eq_self_iff.mpr fun m hm => by rw [hund m hm]; rfl
    rw [hpart] at hthrough
    rw [List.findSome?_eq_none_iff.mpr hund, Option.getD_none,
      scan_reading_iff 2 members.toList hund hthrough, or_iff_right hdecided]

def colorConfigOf (inner members : ColorFields) : ColorFields :=
  .cons colorConfigKey (.object inner) members

def colorField (color : ColorKey) (bits : UInt64) (members : ColorFields) : ColorFields :=
  .cons color.name.toUTF8.data.toList (.number bits) members

def plainColors : ColorFields :=
  colorConfigOf (colorField .transferCharacteristics 0x4014000000000000 .nil) .nil

theorem plain_colors_read : plainColors.Fits maxSkipDepth ∧
    ScansThrough 2 (undecidedPart plainColors.toList) ∧ lastCarries 2 plainColors.toList = true ∧
    ∃ h, parseColorInfoAmf (Amf0Type.object.marker :: plainColors.bytes) h =
      colorReading 2 plainColors.toList := by
  have hfits : plainColors.Fits maxSkipDepth := by
    refine ⟨by decide, ⟨by decide, by decide, trivial, trivial, ?_⟩, trivial, ?_⟩
    · rintro - bits ⟨⟩
      decide +kernel
    · rintro - bits ⟨⟩
  have hthrough : ScansThrough 2 (undecidedPart plainColors.toList) := by
    intro m hm inner hconfig
    rw [List.mem_singleton.mp ((List.takeWhile_prefix _).subset hm), ColorMember.config,
      if_pos (by decide)] at hconfig
    cases hconfig
    refine ⟨?_, ?_⟩
    · intro m hm
      rw [List.mem_singleton.mp hm]
      decide +kernel
    · intro m hm inner hconfig
      rw [List.mem_singleton.mp hm] at hconfig
      cases hconfig
  have hlast : lastCarries 2 plainColors.toList = true := by decide +kernel
  exact ⟨hfits, hthrough, hlast, by decide,
    (color_info_reading plainColors hfits (by decide) (by decide) hthrough).mpr (.inr hlast)⟩

def leakingColors : ColorFields :=
  colorConfigOf (colorField .colorPrimaries 0x40F1170000000000
    (colorField .transferCharacteristics 0x4014000000000000 .nil)) .nil

def hidingColors : ColorFields :=
  colorConfigOf (colorField .colorPrimaries 0x40F1170000000000 .nil)
    (colorField .colorPrimaries 0x4022000000000000 .nil)

def emptyLastColors : ColorFields :=
  colorConfigOf (colorField .colorPrimaries 0x4022000000000000 .nil) (colorConfigOf .nil .nil)

/-- The rest of a nested object that is out of range is taken for the enclosing one, and its end
for the end of the enclosing one; and where the last nested object has no color number, one before
it is read. -/
theorem nested_members_leak :
    (∃ h, parseColorInfoAmf (Amf0Type.object.marker :: leakingColors.bytes) h = some ⟨1, 5, 1⟩) ∧
    colorReading 2 leakingColors.toList = none ∧
    (∃ h, parseColorInfoAmf (Amf0Type.object.marker :: hidingColors.bytes) h = none) ∧
    colorReading 2 hidingColors.toList = some ⟨9, 1, 1⟩ ∧
    (∃ h, parseColorInfoAmf (Amf0Type.object.marker :: emptyLastColors.bytes) h =
      some ⟨9, 1, 1⟩) ∧
    colorReading 2 emptyLastColors.toList = none := by
  refine ⟨⟨by decide, ?_⟩, ?_, ⟨by decide, ?_⟩, ?_, ⟨by decide, ?_⟩, ?_⟩
  · decide +kernel
  · decide +kernel
  · decide +kernel
  · decide +kernel
  · decide +kernel
  · decide +kernel

end LibRtmp.Proofs
