import LibRtmp.Proofs.CapReaders

namespace LibRtmp.Proofs

open Actions Parsing Amf0 Ertmp

variable {field : CapField} {members : List ConnectMember} {α : Type} (b : Buffer)
    (key : List UInt8)

section Fields

variable {key : List UInt8} {field : CapField}

theorem plain_field_eq (h : CapField.ofKey key = none) :
    readConnectField key = readConnectPlainField key := by
  rw [readConnectField, readConnectErtmpField, h]
  exact pure_bind false _

/-- A capability is read, or skipped with what its reader has left. -/
theorem on_cap_field (h : CapField.ofKey key = some field) (s : Buffer × ConnectOutput) :
    (readConnectField key).on s =
      match field.read.on s with
      | (.ok _, s') => (.ok (), s')
      | (.error _, s') => (reading skipValue).on (s.1, s'.2) := by
  rw [readConnectField, readConnectErtmpField, h, Action.on_bind]
  dsimp only
  rw [Action.on_bind, Action.on_get]
  dsimp only
  rw [Action.on_bind, Action.on_attempt]
  generalize field.read.on s = r
  obtain ⟨r, s'⟩ := r
  cases r with
  | ok a => rfl
  | error e =>
    dsimp only
    rw [Action.on_bind, Action.on_modify]
    dsimp only
    rw [Action.on_bind]
    generalize (reading skipValue).on (s.1, s'.2) = r
    obtain ⟨r, s''⟩ := r
    cases r <;> rfl

/-- Reading a member goes by the bytes it consumes. -/
theorem exact_connect_field (key : List UInt8) :
    Exact unreadInput Prod.snd (readConnectField key) (Value (maxSkipDepth + 1)) := by
  cases hfield : CapField.ofKey key with
  | none =>
    rw [plain_field_eq hfield]
    intro s a ha
    obtain ⟨d, hd, hrest⟩ := (sound_plain_field key).exact
      (fun d t hd => local_plain_field key hd t) s a ha
    obtain ⟨ty, e, rfl, hbody⟩ := hd
    exact ⟨_, ⟨ty, e, rfl, Body.deeper hbody (Nat.le_succ _)⟩, hrest⟩
  | some field =>
    intro s a ha
    have hon := on_cap_field hfield s
    cases hread : (field.read.on s).1 with
    | ok u =>
      obtain ⟨d, hd, hs, hdecided⟩ := (sound_cap_field field).exact
        (fun d t hd => local_cap_field field hd t) s u hread
      have hall (s' : Buffer × ConnectOutput) (h' : (field.read.on s').1 = .ok u) :
          (readConnectField key).on s' = (.ok (), (field.read.on s').2) := by
        rw [on_cap_field hfield]
        generalize field.read.on s' = r at h'
        obtain ⟨r, s''⟩ := r
        cases h'
        rfl
      rw [hall s hread]
      refine ⟨d, hd, hs, fun s' tail hs' ht => ?_⟩
      obtain ⟨h₁, h₂, h₃⟩ := hdecided s' tail hs' ht
      rw [hall s' h₁]
      exact ⟨rfl, h₂, fun _ _ => h₃ u rfl⟩
    | error x =>
      have hall (s' : Buffer × ConnectOutput) (h' : (field.read.on s').1 = .error x) :
          (readConnectField key).on s' = (reading skipValue).on (s'.1, (field.read.on s').2.2) := by
        rw [on_cap_field hfield]
        generalize field.read.on s' = r at h'
        obtain ⟨r, s''⟩ := r
        cases h'
        rfl
      rw [hall s hread] at ha ⊢
      obtain ⟨d, hd, hvalue⟩ := sound_reading sound_skip _ a ha
      have hvalue' : Value (maxSkipDepth + 1) d := by
        obtain ⟨ty, e, rfl, hbody⟩ := hvalue
        exact ⟨ty, e, rfl, Body.deeper hbody (Nat.le_succ _)⟩
      have hdecided := (local_cap_field field hvalue' s.2).decided_by (s := s) hd rfl
      rw [hread] at hdecided
      refine ⟨d, hvalue', hd, fun s' tail hs' ht => ?_⟩
      obtain ⟨h₁, h₂, -⟩ := hdecided s' tail hs' ht
      rw [hall s' h₁]
      obtain ⟨h₃, h₄, h₅⟩ := reads_decided (reads_skip hvalue) _ (s'.1, (field.read.on s').2.2)
        tail hs' rfl
      exact ⟨h₃, by rw [h₄]; exact h₂, fun _ _ => h₅ () rfl⟩

end Fields

section Members

variable {T : Type} {V : List UInt8 → Prop} {member : List UInt8 → FillM T Unit}

inductive MembersRead (V : List UInt8 → Prop) (member : List UInt8 → FillM T Unit) :
    T → List ConnectMember → T → Prop where
  | nil (t : T) : MembersRead V member t [] t
  | cons {t t' t'' : T} {m : ConnectMember} {members : List ConnectMember}
    (hk : m.key.length < 256) (hv : V m.value) (hlen : m.value.length ≤ isizeMax)
    (h : Decided unreadInput Prod.snd (member m.key) t m.value (.ok ()) t')
    (rest : MembersRead V member t' members t'') : MembersRead V member t (m :: members) t''

theorem members_end (member : List UInt8 → FillM T Unit) (s : Buffer × T) {tail : List UInt8}
    (hs : unreadInput s = objectEndMarker ++ tail) (keys : Nat) :
    ((readMembers member keys).on s).1 = .ok () ∧ ((readMembers member keys).on s).2.2 = s.2 ∧
      unreadInput ((readMembers member keys).on s).2 = tail := by
  have hend : isObjectEnd s.1 = true := by
    rw [isObjectEnd, show s.1.peek = _ from hs]
    rfl
  rw [on_read_members, if_pos hend]
  obtain ⟨h₁, h₂, h₃⟩ := (reads_decided (reads_bytes .amf (n := 3) (d := objectEndMarker) rfl)
    s.2).then_ok (f := fun _ => pure ()) (decided_pure () s.2) s tail hs rfl
  exact ⟨h₁, h₂, h₃ () rfl⟩

/-- Members that were read are read the same way whatever follows their end marker. -/
theorem MembersRead.decided (hv : Marked V) {t t' : T} {members : List ConnectMember}
    (h : MembersRead V member t members t') : ∀ {keys : Nat}, members.length ≤ keys →
      Decided unreadInput Prod.snd (readMembers member keys) t
        (members.flatMap ConnectMember.bytes ++ objectEndMarker) (.ok ()) t' := by
  induction h with
  | nil t =>
    intro keys _ s tail hs ht
    obtain ⟨h₁, h₂, h₃⟩ := members_end member s hs keys
    exact ⟨h₁, h₂.trans ht, fun _ _ => h₃⟩
  | @cons t t' t'' m members hk hval _ h _ ih =>
    intro keys hlen s tail hs ht
    obtain ⟨keys, rfl⟩ : ∃ k, keys = k + 1 := ⟨keys - 1, by rw [List.length_cons] at hlen; omega⟩
    have hkey : Reads Buffer.peek (readObjectKey 256)
        (Bytes.toBe 2 m.key.length ++ m.key) m.key := by
      refine (reads_be .io (Nat.lt_trans hk (by decide))).bind ?_
      rw [if_neg (Nat.not_le.mpr hk)]
      exact reads_bytes .amf rfl
    have hfew : members.length ≤ keys := by rw [List.length_cons] at hlen; omega
    have hmember := h.then_ok (f := fun _ => readMembers member keys) (ih hfew)
    have hall := (reads_decided hkey t).then_ok
      (f := fun key => member key >>= fun _ => readMembers member keys) hmember
    have hbytes : (m :: members).flatMap ConnectMember.bytes ++ objectEndMarker =
        (Bytes.toBe 2 m.key.length ++ m.key) ++
          (m.value ++ (members.flatMap ConnectMember.bytes ++ objectEndMarker)) := by
      simp only [List.flatMap_cons, ConnectMember.bytes, List.append_assoc]
    rw [hbytes] at hs
    have hnot : ¬ isObjectEnd s.1 = true := by
      have hne := member_not_end hv
        (members.flatMap ConnectMember.bytes ++ objectEndMarker ++ tail)
        (Nat.lt_trans hk (by decide)) hval
      rw [isObjectEnd, show s.1.peek = _ from hs]
      simp only [List.append_assoc] at hne ⊢
      exact fun heq => hne (beq_iff_eq.mp heq)
    rw [on_read_members, if_neg hnot]
    exact hall s tail hs ht

/-- When the members are read, they are there up to an end marker. -/
theorem members_are_read (hm : ∀ key, Exact unreadInput Prod.snd (member key) V) :
    ∀ (keys : Nat) (s : Buffer × T), ((readMembers member keys).on s).1 = .ok () →
      ∃ members, members.length ≤ keys ∧
        unreadInput s = members.flatMap ConnectMember.bytes ++ (objectEndMarker ++
          unreadInput ((readMembers member keys).on s).2) ∧
        MembersRead V member s.2 members ((readMembers member keys).on s).2.2 := by
  have hend (keys : Nat) (s : Buffer × T) (he : isObjectEnd s.1 = true) :
      ∃ members : List ConnectMember, members.length ≤ keys ∧
        unreadInput s = members.flatMap ConnectMember.bytes ++ (objectEndMarker ++
          unreadInput ((readMembers member keys).on s).2) ∧
        MembersRead V member s.2 members ((readMembers member keys).on s).2.2 := by
    have hs : unreadInput s = objectEndMarker ++ s.1.peek.drop 3 := by
      rw [isObjectEnd] at he
      rw [← beq_iff_eq.mp he]
      exact (List.take_append_drop 3 s.1.peek).symm
    obtain ⟨-, h₂, h₃⟩ := members_end member s hs keys
    rw [h₂, h₃]
    exact ⟨[], Nat.zero_le _, hs, .nil _⟩
  intro keys
  induction keys with
  | zero =>
    intro s hok
    by_cases he : isObjectEnd s.1 = true
    · exact hend 0 s he
    · rw [on_read_members, if_neg he] at hok
      cases hok
  | succ keys ih =>
    intro s hok
    by_cases he : isObjectEnd s.1 = true
    · exact hend (keys + 1) s he
    · rw [on_read_members, if_neg he] at hok
      have hon := on_read_members member (keys + 1) s
      rw [if_neg he] at hon
      dsimp only at hok hon
      obtain ⟨key, hkey, hok, heq⟩ := bind_ok hok
      obtain ⟨u, hmember, hok, heq'⟩ := bind_ok hok
      obtain ⟨d, hd, rfl, hk⟩ := sound_reading sound_object_key s key hkey
      obtain ⟨value, hvalue, hs, hdecided⟩ := hm key _ u hmember
      obtain ⟨members, hlen, hrest, hread⟩ := ih _ hok
      rw [hon, heq, heq']
      have hsame : ((reading (readObjectKey 256)).on s).2.2 = s.2 := rfl
      rw [hsame] at hdecided
      have hbound : value.length ≤ isizeMax := by
        have hle : (unreadInput ((reading (readObjectKey 256)).on s).2).length ≤ isizeMax :=
          Buffer.peek_length_le _
        rw [hs, List.length_append] at hle
        omega
      refine ⟨⟨key, value⟩ :: members, by rw [List.length_cons]; omega, ?_,
        .cons hk hvalue hbound hdecided hread⟩
      rw [hd, hs, hrest]
      simp only [List.flatMap_cons, ConnectMember.bytes, List.append_assoc]

end Members

section Effects

/-- All but what a rejected value may have changed. -/
def bare (t : ConnectOutput) : ConnectOutput :=
  setInfo (fun info => { info with
    fourCcList := [], videoFourCcInfoMap := [], capsEx := ⟨{}, info.capsEx.mask⟩ }) t

theorem list_read_on (t : ConnectOutput) : CapField.fourCcList.read.on (b, t) =
    match readFourCcListAmf.on (b, []) with
    | (.ok _, (b', list)) => (.ok (), (b', setInfo (fun info =>
        { info with fourCcList := list, hasFourCcList := true }) t))
    | (.error e, (b', list)) => (.error e, (b', setInfo (fun info =>
        { info with fourCcList := list }) t)) := by
  have hinit (list : FourCcList) : readFourCcListAmf.on (b, list) = readFourCcListAmf.on (b, []) :=
    rfl
  rw [CapField.read, Action.on_bind, on_into, hinit]
  generalize readFourCcListAmf.on (b, []) = r
  obtain ⟨r, b', list⟩ := r
  cases r <;> rfl

theorem map_read_on (t : ConnectOutput) : CapField.videoFourCcInfoMap.read.on (b, t) =
    match readVideoFourccInfoMapAmf.on (b, []) with
    | (.ok _, (b', map)) => (.ok (), (b', setInfo (fun info =>
        { info with videoFourCcInfoMap := map, hasVideoFourCcInfoMap := true }) t))
    | (.error e, (b', map)) => (.error e, (b', setInfo (fun info =>
        { info with videoFourCcInfoMap := map }) t)) := by
  have hinit (map : VideoFourCcInfoMap) : readVideoFourccInfoMapAmf.on (b, map) =
      readVideoFourccInfoMapAmf.on (b, []) := rfl
  rw [CapField.read, Action.on_bind, on_into, hinit]
  generalize readVideoFourccInfoMapAmf.on (b, []) = r
  obtain ⟨r, b', map⟩ := r
  cases r <;> rfl

/-- The reader does the same whatever was there before. -/
theorem reconnect_amf_on : ∃ (r : Except ErrorCode Reconnect) (b' : Buffer),
    ∀ rc, readReconnectAmf.on (b, rc) =
      match r with
      | .ok rc' => (.ok (), (b', rc'))
      | .error e => (.error e, (b', rc)) := by
  have hon (rc : Reconnect) : readReconnectAmf.on (b, rc) =
      match (readType >>= readAmfBinaryBlob).on b with
      | (.ok data, b') => (reconnectParse data).on (b', rc)
      | (.error e, b') => (.error e, (b', rc)) := by
    rw [readReconnectAmf, Action.on_bind, on_reading, Action.on_bind]
    generalize readType.on b = r
    obtain ⟨r, b'⟩ := r
    cases r with
    | error e => rfl
    | ok ty =>
      dsimp only
      rw [Action.on_bind, on_reading]
      generalize (readAmfBinaryBlob ty).on b' = r
      obtain ⟨r, b''⟩ := r
      cases r <;> rfl
  generalize (readType >>= readAmfBinaryBlob).on b = r at hon
  obtain ⟨r, b'⟩ := r
  cases r with
  | error e => exact ⟨.error e, b', hon⟩
  | ok data =>
    by_cases hlen : data.length ≠ 8
    · refine ⟨.error .io, b', fun rc => ?_⟩
      rw [hon]
      dsimp only
      rw [reconnectParse, if_pos hlen]
      rfl
    · refine ⟨.ok ⟨u32OfBe (data.take 4), u32OfBe (data.drop 4)⟩, b', fun rc => ?_⟩
      rw [hon]
      dsimp only
      rw [reconnectParse, if_neg hlen]
      rfl

theorem reconnect_read_on : ∃ (r : Except ErrorCode Reconnect) (b' : Buffer),
    ∀ t, CapField.reconnect.read.on (b, t) =
      match r with
      | .ok rc => (.ok (), (b', setInfo (fun info =>
          { info with reconnect := rc, hasReconnect := true }) t))
      | .error e => (.error e, (b', t)) := by
  obtain ⟨r, b', h⟩ := reconnect_amf_on b
  refine ⟨r, b', fun t => ?_⟩
  rw [CapField.read, Action.on_bind, on_into, h]
  cases r <;> rfl

def CodecsOnly {α : Type} (m : FillM CapsEx α) : Prop :=
  ∀ b, ∃ r b', ∀ c, ∃ caps, m.on (b, c) = (r, (b', ⟨caps, c.mask⟩))

theorem codecs_reading (m : ReadM α) : CodecsOnly (reading m) :=
  fun b => ⟨(m.on b).1, (m.on b).2, fun c => ⟨c.caps, rfl⟩⟩

theorem codecs_filling (f : CapsExit → CapsExit) :
    CodecsOnly (filling (fun c => { c with caps := f c.caps })) :=
  fun b => ⟨.ok (), b, fun c => ⟨f c.caps, rfl⟩⟩

theorem codecs_pure (a : α) : CodecsOnly (pure a) := fun b => ⟨.ok a, b, fun c => ⟨c.caps, rfl⟩⟩

theorem codecs_throw (x : ErrorCode) : CodecsOnly (throw x : FillM CapsEx α) :=
  fun b => ⟨.error x, b, fun c => ⟨c.caps, rfl⟩⟩

theorem CodecsOnly.bind {α β : Type} {m : FillM CapsEx α} {f : α → FillM CapsEx β}
    (hm : CodecsOnly m) (hf : ∀ a, CodecsOnly (f a)) : CodecsOnly (m >>= f) := by
  intro b
  obtain ⟨r, b', hm⟩ := hm b
  cases r with
  | error x =>
    refine ⟨.error x, b', fun c => ?_⟩
    obtain ⟨caps, hc⟩ := hm c
    exact ⟨caps, by rw [Action.on_bind, hc]⟩
  | ok a =>
    obtain ⟨r, b'', hf⟩ := hf a b'
    refine ⟨r, b'', fun c => ?_⟩
    obtain ⟨caps, hc⟩ := hm c
    obtain ⟨caps', hc'⟩ := hf ⟨caps, c.mask⟩
    exact ⟨caps', by rw [Action.on_bind, hc]; exact hc'⟩

theorem codecs_members {member : List UInt8 → FillM CapsEx Unit}
    (hm : ∀ key, CodecsOnly (member key)) (keys : Nat) : CodecsOnly (readMembers member keys) := by
  have hend : CodecsOnly (reading (readBytes .amf 3) >>= fun _ => pure ()) :=
    (codecs_reading _).bind fun _ => codecs_pure _
  induction keys with
  | zero =>
    intro b
    by_cases he : isObjectEnd b = true
    · obtain ⟨r, b', h⟩ := hend b
      exact ⟨r, b', fun c => by rw [on_read_members, if_pos he]; exact h c⟩
    · exact ⟨.error .amf, b, fun c => ⟨c.caps, by rw [on_read_members, if_neg he]⟩⟩
  | succ keys ih =>
    intro b
    by_cases he : isObjectEnd b = true
    · obtain ⟨r, b', h⟩ := hend b
      exact ⟨r, b', fun c => by rw [on_read_members, if_pos he]; exact h c⟩
    · obtain ⟨r, b', h⟩ := ((codecs_reading (readObjectKey 256)).bind fun key =>
        (hm key).bind fun _ => ih) b
      exact ⟨r, b', fun c => by rw [on_read_members, if_neg he]; exact h c⟩

theorem codecs_caps_member : CodecsOnly (readCapsExMember key) := by
  unfold readCapsExMember
  split
  · exact (codecs_reading _).bind fun codec =>
      codecs_filling (fun caps => { caps with videoCodec32 := codec })
  · split
    · exact (codecs_reading _).bind fun codec =>
        codecs_filling (fun caps => { caps with audioCodec32 := codec })
    · exact codecs_reading _

theorem codecs_caps_mask : CodecsOnly readCapsExMask := by
  refine (codecs_reading readType).bind fun ty => ?_
  cases ty with
  | number => exact (codecs_reading _).bind fun _ => codecs_reading _
  | longString =>
    refine (codecs_reading _).bind fun data => CodecsOnly.bind ?_ fun _ => codecs_pure _
    unfold capsExitParse
    split
    · exact codecs_throw _
    · exact codecs_filling (fun _ => _)
  | object =>
    refine (codecs_filling (fun caps => { caps with version := 1 })).bind fun _ => ?_
    exact (codecs_members codecs_caps_member _).bind fun _ => codecs_pure _
  | _ => exact codecs_throw _

theorem caps_read_on : ∃ (r : Except ErrorCode UInt32) (b' : Buffer),
    ∀ t, ∃ caps, CapField.capsEx.read.on (b, t) =
      match r with
      | .ok mask => (.ok (), (b', setInfo (fun info =>
          { info with capsEx := ⟨caps, mask⟩, hasCapsEx := true }) t))
      | .error e => (.error e, (b', setInfo (fun info =>
          { info with capsEx := ⟨caps, info.capsEx.mask⟩ }) t)) := by
  obtain ⟨r, b', hmask⟩ := codecs_caps_mask b
  refine ⟨r, b', fun t => ?_⟩
  obtain ⟨caps, hc⟩ := hmask t.info.capsEx
  refine ⟨caps, ?_⟩
  rw [CapField.read, Action.on_bind, on_into, readCapsExAmf, Action.on_bind, hc]
  cases r <;> rfl

structure Effect (field : CapField) (b : Buffer) (t u : ConnectOutput) : Prop where
  result : (field.read.on (b, t)).1 = (field.read.on (b, u)).1
  buffer : (field.read.on (b, t)).2.1 = (field.read.on (b, u)).2.1
  bare : bare t = bare u → bare (field.read.on (b, t)).2.2 = bare (field.read.on (b, u)).2.2
  failed : ∀ e, (field.read.on (b, t)).1 = .error e →
    Proofs.bare (field.read.on (b, t)).2.2 = Proofs.bare t
  list : (field.read.on (b, t)).2.2.info.fourCcList =
    if field = .fourCcList then (field.read.on (b, u)).2.2.info.fourCcList else t.info.fourCcList
  map : (field.read.on (b, t)).2.2.info.videoFourCcInfoMap =
    if field = .videoFourCcInfoMap then (field.read.on (b, u)).2.2.info.videoFourCcInfoMap
    else t.info.videoFourCcInfoMap
  hasList : (field.read.on (b, t)).2.2.info.hasFourCcList =
    (t.info.hasFourCcList || (field = .fourCcList && (field.read.on (b, t)).1.isOk))
  hasMap : (field.read.on (b, t)).2.2.info.hasVideoFourCcInfoMap =
    (t.info.hasVideoFourCcInfoMap ||
      (field = .videoFourCcInfoMap && (field.read.on (b, t)).1.isOk))

/-- What each reader of a capability does. -/
theorem cap_effect (field : CapField) (b : Buffer) (t u : ConnectOutput) : Effect field b t u := by
  cases field with
  | fourCcList =>
    have ht := list_read_on b t
    have hu := list_read_on b u
    generalize readFourCcListAmf.on (b, []) = r at ht hu
    obtain ⟨r, b', list⟩ := r
    cases r with
    | ok a => constructor <;> simp_all [bare, setInfo, Except.isOk, Except.toBool]
    | error e => constructor <;> simp_all [bare, setInfo, Except.isOk, Except.toBool]
  | capsEx =>
    obtain ⟨r, b', h⟩ := caps_read_on b
    obtain ⟨caps, ht⟩ := h t
    obtain ⟨caps', hu⟩ := h u
    cases r with
    | ok a => constructor <;> simp_all [bare, setInfo, Except.isOk, Except.toBool]
    | error e => constructor <;> simp_all [bare, setInfo, Except.isOk, Except.toBool]
  | videoFourCcInfoMap =>
    have ht := map_read_on b t
    have hu := map_read_on b u
    generalize readVideoFourccInfoMapAmf.on (b, []) = r at ht hu
    obtain ⟨r, b', map⟩ := r
    cases r with
    | ok a => constructor <;> simp_all [bare, setInfo, Except.isOk, Except.toBool]
    | error e => constructor <;> simp_all [bare, setInfo, Except.isOk, Except.toBool]
  | reconnect =>
    obtain ⟨r, b', h⟩ := reconnect_read_on b
    have ht := h t
    have hu := h u
    cases r with
    | ok a => constructor <;> simp_all [bare, setInfo, Except.isOk, Except.toBool]
    | error e => constructor <;> simp_all [bare, setInfo, Except.isOk, Except.toBool]

end Effects

section PlainFields

structure PlainUpdate (f : ConnectOutput → ConnectOutput) : Prop where
  bare : ∀ t u, bare t = bare u → bare (f t) = bare (f u)
  list : ∀ t, (f t).info.fourCcList = t.info.fourCcList
  map : ∀ t, (f t).info.videoFourCcInfoMap = t.info.videoFourCcInfoMap
  hasList : ∀ t, (f t).info.hasFourCcList = t.info.hasFourCcList
  hasMap : ∀ t, (f t).info.hasVideoFourCcInfoMap = t.info.hasVideoFourCcInfoMap
  caps : ∀ t, (f t).info.capsEx = t.info.capsEx ∧ (f t).info.hasCapsEx = t.info.hasCapsEx
  hasReconnect : ∀ t, (f t).info.hasReconnect = t.info.hasReconnect

theorem plain_id : PlainUpdate id := ⟨fun _ _ h => h, fun _ => rfl, fun _ => rfl, fun _ => rfl,
  fun _ => rfl, fun _ => ⟨rfl, rfl⟩, fun _ => rfl⟩

theorem PlainUpdate.comp {f g : ConnectOutput → ConnectOutput} (hg : PlainUpdate g)
    (hf : PlainUpdate f) : PlainUpdate (g ∘ f) where
  bare t u h := hg.bare _ _ (hf.bare t u h)
  list t := (hg.list _).trans (hf.list t)
  map t := (hg.map _).trans (hf.map t)
  hasList t := (hg.hasList _).trans (hf.hasList t)
  hasMap t := (hg.hasMap _).trans (hf.hasMap t)
  caps t := ⟨(hg.caps _).1.trans (hf.caps t).1, (hg.caps _).2.trans (hf.caps t).2⟩
  hasReconnect t := (hg.hasReconnect _).trans (hf.hasReconnect t)

def capsOf (info : ConnectInfo) :=
  (info.fourCcList, info.videoFourCcInfoMap, info.capsEx, info.hasFourCcList,
    info.hasVideoFourCcInfoMap, info.hasCapsEx, info.hasReconnect)

structure CapsBlind (f : ConnectOutput → ConnectOutput) : Prop where
  bare : ∀ t, bare (f t) = f (bare t)
  caps : ∀ t, capsOf (f t).info = capsOf t.info

theorem CapsBlind.plain {f : ConnectOutput → ConnectOutput} (h : CapsBlind f) : PlainUpdate f := by
  have hcaps := h.caps
  simp only [capsOf, Prod.mk.injEq] at hcaps
  constructor
  · intro t u hbare
    rw [h.bare, h.bare, hbare]
  all_goals
    intro t
    simp [hcaps t]

def PlainOnly {α : Type} (m : FillM ConnectOutput α) : Prop :=
  ∀ b, ∃ r b' f, PlainUpdate f ∧ ∀ t, m.on (b, t) = (r, (b', f t))

variable {α β : Type}

theorem plain_reading (m : ReadM α) : PlainOnly (reading m) :=
  fun b => ⟨(m.on b).1, (m.on b).2, id, plain_id, fun _ => rfl⟩

theorem plain_filling {f : ConnectOutput → ConnectOutput} (hf : PlainUpdate f) :
    PlainOnly (filling f) := fun b => ⟨.ok (), b, f, hf, fun _ => rfl⟩

theorem plain_pure (a : α) : PlainOnly (pure a) := fun b => ⟨.ok a, b, id, plain_id, fun _ => rfl⟩

theorem plain_throw (x : ErrorCode) : PlainOnly (throw x : FillM ConnectOutput α) :=
  fun b => ⟨.error x, b, id, plain_id, fun _ => rfl⟩

theorem PlainOnly.bind {m : FillM ConnectOutput α} {f : α → FillM ConnectOutput β}
    (hm : PlainOnly m) (hf : ∀ a, PlainOnly (f a)) : PlainOnly (m >>= f) := by
  intro b
  obtain ⟨r, b', g, hg, hm⟩ := hm b
  cases r with
  | error x => exact ⟨.error x, b', g, hg, fun t => by rw [Action.on_bind, hm t]⟩
  | ok a =>
    obtain ⟨r, b'', g', hg', hf⟩ := hf a b'
    exact ⟨r, b'', g' ∘ g, hg'.comp hg, fun t => by rw [Action.on_bind, hm t]; exact hf (g t)⟩

/-- Looking at the buffer is allowed. -/
theorem plain_get {f : Buffer × ConnectOutput → FillM ConnectOutput α}
    (hsame : ∀ b t u, f (b, t) = f (b, u)) (hf : ∀ s, PlainOnly (f s)) :
    PlainOnly (get >>= f) := by
  intro b
  obtain ⟨r, b', g, hg, h⟩ := hf (b, {}) b
  refine ⟨r, b', g, hg, fun t => ?_⟩
  rw [Action.on_bind, Action.on_get]
  dsimp only
  rw [hsame b t {}]
  exact h t

theorem plain_checked {limit : Nat} {put : List UInt8 → ConnectInfo → ConnectInfo}
    (hput : ∀ text, PlainUpdate (setInfo (put text))) : PlainOnly (readStringChecked limit put) := by
  refine (plain_reading _).bind fun ty => ?_
  split
  · exact plain_throw _
  · refine (plain_reading _).bind fun slen => plain_get (fun _ _ _ => rfl) fun s => ?_
    split
    · exact plain_throw _
    · split
      · exact fun b => ⟨.error .amf, b.drain slen, id, plain_id, fun _ => rfl⟩
      · refine (plain_reading _).bind fun text => (plain_filling (hput _)).bind fun _ => ?_
        split
        · exact plain_throw _
        · exact plain_pure _

theorem plain_if {c : Prop} [Decidable c] {m m' : FillM ConnectOutput α} (hm : PlainOnly m)
    (hm' : PlainOnly m') : PlainOnly (if c then m else m') := by
  split
  · exact hm
  · exact hm'

theorem plain_text : PlainOnly (readPlainText key) := by
  have hchecked {limit : Nat} {put : List UInt8 → ConnectInfo → ConnectInfo}
      (hput : ∀ text, CapsBlind (setInfo (put text))) : PlainOnly (readStringChecked limit put) :=
    plain_checked fun text => (hput text).plain
  refine plain_if (hchecked fun _ => ⟨fun _ => rfl, fun _ => rfl⟩) ?_
  refine plain_if (hchecked fun _ => ⟨fun _ => rfl, fun _ => rfl⟩) ?_
  refine plain_if (hchecked fun _ => ⟨fun _ => rfl, fun _ => rfl⟩) ?_
  refine plain_if (hchecked fun _ => ⟨fun _ => rfl, fun _ => rfl⟩) ?_
  exact plain_if (hchecked fun _ => ⟨fun _ => rfl, fun _ => rfl⟩) (plain_reading _)

theorem plain_update_if {c : Prop} [Decidable c] {f g : ConnectOutput → ConnectOutput}
    (hf : PlainUpdate f) (hg : PlainUpdate g) :
    PlainUpdate (fun t => if c then f t else g t) := by
  by_cases hc : c
  · simpa only [if_pos hc] using hf
  · simpa only [if_neg hc] using hg

theorem plain_number (bits : Nat) : PlainUpdate (putPlainNumber key bits) := by
  refine plain_update_if (CapsBlind.plain ⟨fun _ => rfl, fun _ => rfl⟩) ?_
  refine plain_update_if (CapsBlind.plain ⟨fun _ => rfl, fun _ => rfl⟩) ?_
  exact plain_update_if (CapsBlind.plain (f := fun t => { t with objectEncoding := bits })
    ⟨fun _ => rfl, fun _ => rfl⟩) plain_id

theorem plain_field : PlainOnly (readConnectPlainField key) := by
  refine (plain_reading _).bind fun ty => ?_
  cases ty with
  | string => exact plain_text key
  | number => exact (plain_reading _).bind fun bits => plain_filling (plain_number key bits)
  | _ => exact plain_reading _

end PlainFields

section Members

abbrev connectDecided (key : List UInt8) (t : ConnectOutput) (value : List UInt8)
    (t' : ConnectOutput) : Prop :=
  Decided unreadInput Prod.snd (readConnectField key) t value (.ok ()) t'

abbrev connectRead := MembersRead (Value (maxSkipDepth + 1)) readConnectField

variable {m : ConnectMember} {t t' u : ConnectOutput} {field : CapField}

theorem peek_buffer_of {d : List UInt8} (h : d.length ≤ isizeMax) : (bufferOf d).peek = d := by
  rw [bufferOf, dif_pos h, Buffer.peek_from_slice]

/-- A member alone in a buffer. -/
theorem alone_on (hlen : m.value.length ≤ isizeMax)
    (h : connectDecided m.key t m.value t') :
    ((readConnectField m.key).on (bufferOf m.value, t)).1 = .ok () ∧
      ((readConnectField m.key).on (bufferOf m.value, t)).2.2 = t' ∧
      ((readConnectField m.key).on (bufferOf m.value, t)).2.1.peek = [] := by
  have hpeek : unreadInput (bufferOf m.value, t) = m.value ++ [] := by
    rw [List.append_nil]
    exact peek_buffer_of hlen
  obtain ⟨h₁, h₂, h₃⟩ := h (bufferOf m.value, t) [] hpeek rfl
  exact ⟨h₁, h₂, h₃ () rfl⟩

theorem cap_out (hfield : m.field = some field) (hlen : m.value.length ≤ isizeMax)
    (h : connectDecided m.key t m.value t') :
    (field.read.on (bufferOf m.value, t)).2.2 = t' := by
  obtain ⟨-, hout, -⟩ := alone_on hlen h
  rw [on_cap_field hfield] at hout
  generalize field.read.on (bufferOf m.value, t) = r at hout ⊢
  obtain ⟨r, s⟩ := r
  cases r <;> exact hout

theorem rejected_result (hfield : m.field = some field) (t : ConnectOutput) :
    m.rejected = !(field.read.on (bufferOf m.value, t)).1.isOk := by
  have hresult := (cap_effect field (bufferOf m.value) t {}).result
  rw [ConnectMember.rejected, hfield, Option.any_some, CapField.outcome, hresult]

/-- A rejected member changes nothing that counts. -/
theorem rejected_bare (hrejected : m.rejected = true) (hlen : m.value.length ≤ isizeMax)
    (h : connectDecided m.key t m.value t') : bare t' = bare t := by
  cases hfield : m.field with
  | none =>
    rw [ConnectMember.rejected, hfield] at hrejected
    cases hrejected
  | some field =>
    rw [rejected_result hfield t] at hrejected
    rw [← cap_out hfield hlen h]
    have hfailed := (cap_effect field (bufferOf m.value) t t).failed
    generalize field.read.on (bufferOf m.value, t) = r at hrejected hfailed ⊢
    obtain ⟨r, s⟩ := r
    cases r with
    | ok a => cases hrejected
    | error e => exact hfailed e rfl

/-- From an output that agrees in what counts, the same run on a value alone. -/
theorem kept_alone (hkept : m.rejected = false) (hlen : m.value.length ≤ isizeMax)
    (h : connectDecided m.key t m.value t') (hbare : bare t = bare u) :
    ((readConnectField m.key).on (bufferOf m.value, u)).1 = .ok () ∧
      bare t' = bare ((readConnectField m.key).on (bufferOf m.value, u)).2.2 ∧
      ((readConnectField m.key).on (bufferOf m.value, u)).2.1.peek = [] := by
  obtain ⟨hok, hout, hpeek⟩ := alone_on hlen h
  cases hfield : m.field with
  | none =>
    rw [plain_field_eq hfield] at hok hout hpeek ⊢
    obtain ⟨r, b', f, hf, hon⟩ := plain_field m.key (bufferOf m.value)
    rw [hon] at hok hout hpeek
    rw [hon]
    refine ⟨hok, ?_, hpeek⟩
    rw [← hout]
    exact hf.bare t u hbare
  | some field =>
    have hresult := rejected_result hfield t
    have heffect := cap_effect field (bufferOf m.value) t u
    have hsame := heffect.result
    have hbuffer := heffect.buffer
    have houts := heffect.bare hbare
    rw [on_cap_field hfield] at hok hout hpeek ⊢
    rw [hkept] at hresult
    generalize field.read.on (bufferOf m.value, t) = rt at hresult hsame hbuffer houts hout hpeek hok
    generalize field.read.on (bufferOf m.value, u) = ru at hsame hbuffer houts ⊢
    obtain ⟨rt, bt, ot⟩ := rt
    obtain ⟨ru, bu, ou⟩ := ru
    dsimp only at hsame hbuffer houts
    subst hsame hbuffer
    cases rt with
    | error e => cases hresult
    | ok a =>
      refine ⟨rfl, ?_, hpeek⟩
      rw [← hout]
      exact houts

theorem kept_decided (hkept : m.rejected = false) (hlen : m.value.length ≤ isizeMax)
    (h : connectDecided m.key t m.value t') (hbare : bare t = bare u) :
    ∃ u', connectDecided m.key u m.value u' ∧ bare t' = bare u' := by
  obtain ⟨hok, hout, hpeek⟩ := kept_alone hkept hlen h hbare
  obtain ⟨d, -, hd, hdecided⟩ := exact_connect_field m.key (bufferOf m.value, u) () hok
  have hwhole : d = m.value := by
    have hd' : (bufferOf m.value).peek = d ++ _ := hd
    rw [show unreadInput _ = _ from hpeek, List.append_nil, peek_buffer_of hlen] at hd'
    exact hd'.symm
  subst hwhole
  exact ⟨_, hdecided, hout⟩

/-- The members that were not rejected are read alone as they were among all. -/
theorem without_rejected_read (h : connectRead t members t') :
    ∀ {u}, bare t = bare u → ∃ u', connectRead u (withoutRejected members) u' ∧
      bare t' = bare u' := by
  induction h with
  | nil t => exact fun hbare => ⟨_, .nil _, hbare⟩
  | @cons t t₁ t₂ m members hk hv hlen h _ ih =>
    intro u hbare
    unfold withoutRejected
    cases hm : m.rejected with
    | true =>
      obtain ⟨u', hread, hbare'⟩ := ih ((rejected_bare hm hlen h).trans hbare)
      refine ⟨u', ?_, hbare'⟩
      rw [List.filter_cons_of_neg (by simp [hm])]
      exact hread
    | false =>
      obtain ⟨u₁, hdecided, hbare₁⟩ := kept_decided hm hlen h hbare
      obtain ⟨u', hread, hbare'⟩ := ih hbare₁
      refine ⟨u', ?_, hbare'⟩
      rw [List.filter_cons_of_pos (by simp [hm])]
      exact .cons hk hv hlen hdecided hread

theorem last_of_cons (field : CapField) (m : ConnectMember) (members : List ConnectMember) :
    lastOf field (m :: members) =
      if m.field = some field then some ((lastOf field members).getD m)
      else lastOf field members := by
  unfold lastOf
  by_cases hfield : m.field = some field
  · rw [if_pos hfield, List.filter_cons_of_pos (by simp [hfield]), List.getLast?_cons]
  · rw [if_neg hfield, List.filter_cons_of_neg (by simp [hfield])]

/-- What only members of one name set is, in the end, what the last of them set. -/
theorem last_sets {part : ConnectOutput → α} {left : ConnectMember → α}
    (hstep : ∀ m t t', m.value.length ≤ isizeMax → connectDecided m.key t m.value t' →
      part t' = if m.field = some field then left m else part t)
    {members : List ConnectMember} (h : connectRead t members t') :
    part t' = ((lastOf field members).map left).getD (part t) := by
  induction h with
  | nil t => rfl
  | @cons t t₁ t₂ m members _ _ hlen h _ ih =>
    rw [ih, last_of_cons, hstep m t t₁ hlen h]
    by_cases hfield : m.field = some field
    · rw [if_pos hfield, if_pos hfield]
      cases lastOf field members <;> rfl
    · rw [if_neg hfield, if_neg hfield]

theorem plain_member (hfield : m.field = none) (hlen : m.value.length ≤ isizeMax)
    (h : connectDecided m.key t m.value t') : ∃ f, PlainUpdate f ∧ t' = f t := by
  obtain ⟨-, hout, -⟩ := alone_on hlen h
  rw [plain_field_eq hfield] at hout
  obtain ⟨r, b', f, hf, hon⟩ := plain_field m.key (bufferOf m.value)
  rw [hon] at hout
  exact ⟨f, hf, hout.symm⟩

theorem list_step (m : ConnectMember) (t t' : ConnectOutput) (hlen : m.value.length ≤ isizeMax)
    (h : connectDecided m.key t m.value t') : t'.info.fourCcList =
      if m.field = some .fourCcList then (CapField.fourCcList.outcome m.value).2.fourCcList
      else t.info.fourCcList := by
  cases hfield : m.field with
  | none =>
    obtain ⟨f, hf, rfl⟩ := plain_member hfield hlen h
    exact hf.list t
  | some field =>
    have heffect := (cap_effect field (bufferOf m.value) t {}).list
    rw [cap_out hfield hlen h] at heffect
    cases field <;> exact heffect

theorem map_step (m : ConnectMember) (t t' : ConnectOutput) (hlen : m.value.length ≤ isizeMax)
    (h : connectDecided m.key t m.value t') : t'.info.videoFourCcInfoMap =
      if m.field = some .videoFourCcInfoMap then
        (CapField.videoFourCcInfoMap.outcome m.value).2.videoFourCcInfoMap
      else t.info.videoFourCcInfoMap := by
  cases hfield : m.field with
  | none =>
    obtain ⟨f, hf, rfl⟩ := plain_member hfield hlen h
    exact hf.map t
  | some field =>
    have heffect := (cap_effect field (bufferOf m.value) t {}).map
    rw [cap_out hfield hlen h] at heffect
    cases field <;> exact heffect

/-- A capability counts as offered when one of its members was accepted. -/
theorem offered_by_accepted {has : ConnectOutput → Bool}
    (hstep : ∀ (m : ConnectMember) (t t' : ConnectOutput), m.value.length ≤ isizeMax →
      connectDecided m.key t m.value t' → has t' = (has t || (m.field = some field && !m.rejected)))
    {members : List ConnectMember} (h : connectRead t members t') :
    has t' = (has t || (lastOf field (withoutRejected members)).isSome) := by
  induction h with
  | nil t => exact (Bool.or_false _).symm
  | @cons t t₁ t₂ m members _ _ hlen h _ ih =>
    rw [ih, hstep m t t₁ hlen h]
    unfold withoutRejected
    cases hm : m.rejected with
    | true =>
      rw [List.filter_cons_of_neg (by simp [hm]), Bool.not_true, Bool.and_false, Bool.or_false]
    | false =>
      rw [List.filter_cons_of_pos (by simp [hm]), last_of_cons]
      by_cases hfield : m.field = some field
      · simp [hfield]
      · simp [hfield]

theorem list_offered (m : ConnectMember) (t t' : ConnectOutput) (hlen : m.value.length ≤ isizeMax)
    (h : connectDecided m.key t m.value t') : t'.info.hasFourCcList =
      (t.info.hasFourCcList || (m.field = some .fourCcList && !m.rejected)) := by
  cases hfield : m.field with
  | none =>
    obtain ⟨f, hf, rfl⟩ := plain_member hfield hlen h
    rw [hf.hasList]
    simp
  | some field =>
    have heffect := (cap_effect field (bufferOf m.value) t t).hasList
    rw [cap_out hfield hlen h] at heffect
    rw [heffect, rejected_result hfield t, Bool.not_not]
    simp

theorem map_offered (m : ConnectMember) (t t' : ConnectOutput) (hlen : m.value.length ≤ isizeMax)
    (h : connectDecided m.key t m.value t') : t'.info.hasVideoFourCcInfoMap =
      (t.info.hasVideoFourCcInfoMap || (m.field = some .videoFourCcInfoMap && !m.rejected)) := by
  cases hfield : m.field with
  | none =>
    obtain ⟨f, hf, rfl⟩ := plain_member hfield hlen h
    rw [hf.hasMap]
    simp
  | some field =>
    have heffect := (cap_effect field (bufferOf m.value) t t).hasMap
    rw [cap_out hfield hlen h] at heffect
    rw [heffect, rejected_result hfield t, Bool.not_not]
    simp

end Members

section Negotiation

variable {t u : ConnectOutput}

theorem MembersRead.well_formed {T : Type} {V : List UInt8 → Prop}
    {member : List UInt8 → FillM T Unit} {t t' : T} {members : List ConnectMember}
    (h : MembersRead V member t members t') : ∀ m ∈ members, m.key.length < 256 ∧ V m.value := by
  induction h with
  | nil t => exact fun _ hm => nomatch hm
  | cons hk hv _ _ _ ih =>
    intro m hm
    rcases List.mem_cons.mp hm with rfl | hm
    · exact ⟨hk, hv⟩
    · exact ih m hm

theorem bare_plain (h : bare t = bare u) : t.plain = u.plain := by
  obtain ⟨i, e⟩ := t
  obtain ⟨j, f⟩ := u
  simp only [bare, setInfo, ConnectOutput.mk.injEq, ConnectInfo.mk.injEq] at h
  simp [ConnectOutput.plain, h]

theorem bare_offered (h : bare t = bare u) : t.info.hasFourCcList = u.info.hasFourCcList ∧
    t.info.hasVideoFourCcInfoMap = u.info.hasVideoFourCcInfoMap := by
  simp only [bare, setInfo, ConnectOutput.mk.injEq, ConnectInfo.mk.injEq] at h
  simp [h]

/-- What is negotiated can only differ in the list and in the map. -/
theorem negotiate_iff (h : bare t = bare u) : negotiateCaps u.info = negotiateCaps t.info ↔
    (t.info.hasFourCcList = true →
      negotiateFourCcList t.info.fourCcList = negotiateFourCcList u.info.fourCcList) ∧
    (t.info.hasVideoFourCcInfoMap = true →
      negotiateInfoMap t.info.videoFourCcInfoMap = negotiateInfoMap u.info.videoFourCcInfoMap) := by
  obtain ⟨hlist, hmap⟩ := bare_offered h
  have hother : t.info.hasCapsEx = u.info.hasCapsEx ∧ t.info.capsEx.mask = u.info.capsEx.mask ∧
      t.info.hasReconnect = u.info.hasReconnect ∧ t.info.reconnect = u.info.reconnect := by
    simp only [bare, setInfo, ConnectOutput.mk.injEq, ConnectInfo.mk.injEq, CapsEx.mk.injEq] at h
    simp [h]
  obtain ⟨hcaps, hmask, hhas, hreconnect⟩ := hother
  unfold negotiateCaps
  simp only [NegotiatedCaps.mk.injEq, hlist, hmap, hcaps, hmask, hhas, hreconnect, and_true]
  constructor
  · rintro ⟨h₁, h₂, -, -⟩
    refine ⟨fun hon => ?_, fun hon => ?_⟩
    · rw [if_pos hon, if_pos hon] at h₁
      exact h₁.symm
    · rw [if_pos hon, if_pos hon] at h₂
      exact h₂.symm
  · rintro ⟨h₁, h₂⟩
    have hl : (if u.info.hasFourCcList = true then negotiateFourCcList u.info.fourCcList else []) =
        if u.info.hasFourCcList = true then negotiateFourCcList t.info.fourCcList else [] := by
      split
      · rename_i hon
        exact (h₁ hon).symm
      · rfl
    have hm : (if u.info.hasVideoFourCcInfoMap = true then
          negotiateInfoMap u.info.videoFourCcInfoMap else []) =
        if u.info.hasVideoFourCcInfoMap = true then
          negotiateInfoMap t.info.videoFourCcInfoMap else [] := by
      split
      · rename_i hon
        exact (h₂ hon).symm
      · rfl
    rw [hl, hm]
    simp

/-- If one was accepted, there is a last one. -/
theorem last_of_accepted
    (h : lastOf field members = none) : lastOf field (withoutRejected members) = none := by
  unfold lastOf at h ⊢
  rw [List.getLast?_eq_none_iff, List.filter_eq_nil_iff] at h ⊢
  exact fun m hm => h m (List.mem_filter.mp hm).1

/-- The condition, for a part of the output that only members of one name set. -/
theorem retains_iff {α β : Type} {field : CapField} (part : ConnectInfo → α)
    (has : ConnectOutput → Bool) {negotiated : α → β} (start : ConnectOutput)
    {members : List ConnectMember}
    (hstart : has start = false)
    (hlast : part t.info = ((lastOf field members).map
      (fun m => part (field.outcome m.value).2)).getD (part start.info))
    (hlast' : part u.info = ((lastOf field (withoutRejected members)).map
      (fun m => part (field.outcome m.value).2)).getD (part start.info))
    (hhas : has t = (has start || (lastOf field (withoutRejected members)).isSome)) :
    (has t = true → negotiated (part t.info) = negotiated (part u.info)) ↔
      Retains (fun info => negotiated (part info)) field members := by
  rw [hhas, hstart, Bool.false_or, hlast, hlast', Retains]
  cases hl : lastOf field members with
  | none => simp [last_of_accepted hl]
  | some last => cases lastOf field (withoutRejected members) <;> simp

/-- When the rejected ones come first, the last member of a name is the last accepted one. -/
theorem rejected_first_retains {field : CapField} {members : List ConnectMember}
    (h : RejectedFirst field members) (negotiated : ConnectInfo → α) :
    Retains negotiated field members := by
  intro accepted haccepted last hlast
  unfold lastOf withoutRejected at haccepted
  unfold lastOf at hlast
  obtain ⟨first, hfirst⟩ := List.getLast?_eq_some_iff.mp hlast
  have hcomm : (members.filter (fun m => !m.rejected)).filter (fun m => m.field = some field) =
      (first ++ [last]).filter (fun m => !m.rejected) := by
    rw [← hfirst, List.filter_filter, List.filter_filter]
    simp only [Bool.and_comm]
  rw [hcomm] at haccepted
  have hmem := List.mem_filter.mp (List.mem_of_getLast? haccepted)
  have hfields (m : ConnectMember) (hm : m ∈ first ++ [last]) : m.field = some field := by
    rw [← hfirst] at hm
    simpa using (List.mem_filter.mp hm).2
  have hpairs := List.Pairwise.filter (fun m => decide (m.field = some field)) h
  rw [hfirst, List.pairwise_append] at hpairs
  have hkept : last.rejected = false := by
    rcases List.mem_append.mp hmem.1 with hin | hin
    · exact hpairs.2.2 accepted hin last (List.mem_singleton.mpr rfl)
        (hfields accepted hmem.1) (hfields last (by simp)) (by simpa using hmem.2)
    · rw [← List.mem_singleton.mp hin]
      simpa using hmem.2
  have hsame : last = accepted := by simpa [List.filter_append, hkept] using haccepted
  rw [hsame]

end Negotiation

section Payloads

variable {name : List UInt8} {number : Nat}

def connectStart (name : List UInt8) (number : Nat) : ConnectOutput :=
  { info := { name, transactionId := number } }

theorem reads_name (h : name.length < 64) : Reads Buffer.peek (readString 64)
    (Amf0Type.string.marker :: (Bytes.toBe 2 name.length ++ name)) name := by
  refine (reads_u8 Amf0Type.string.marker).bind (d := [Amf0Type.string.marker]) ?_
  rw [if_neg (by simp)]
  refine (reads_be .io (Nat.lt_trans h (by decide))).bind ?_
  rw [if_neg (Nat.not_le.mpr h)]
  exact reads_bytes .amf rfl

theorem reads_object_begin : Reads Buffer.peek readObjectBegin [Amf0Type.object.marker] () := by
  refine (reads_u8 Amf0Type.object.marker).bind (e := []) ?_
  rw [if_neg (by simp)]
  exact reads_pure ()

theorem sound_object_begin :
    Sound Buffer.peek readObjectBegin (fun _ d => d = [Amf0Type.object.marker]) := by
  refine sound_u8.bind fun b d hd => ?_
  subst hd
  split
  · exact sound_throw _
  · rename_i hb
    rw [not_not.mp hb]
    exact sound_pure rfl

/-- A command whose members can be read is read. -/
theorem connect_decided {t' : ConnectOutput}
    (hname : name.length < 64) (hnumber : number < 256 ^ 8)
    (hfew : members.length ≤ maxConnectObjectKeys)
    (h : connectRead (connectStart name number) members t') {s : Buffer × ConnectOutput}
    {tail : List UInt8}
    (hs : s.1.peek = connectPayload name number members tail) :
    (readConnectWithEncoding.on s).1 = .ok () ∧ (readConnectWithEncoding.on s).2.2 = t' := by
  have hbits : Reads Buffer.peek readNumberValue
      (Amf0Type.number.marker :: Bytes.toBe 8 number) number := by
    have h := reads_number_value (Bytes.to_be_length 8 number)
    rwa [Bytes.of_be_to_be_lt hnumber] at h
  have hall : Decided unreadInput Prod.snd readConnectWithEncoding s.2
      ([] ++ (Amf0Type.string.marker :: (Bytes.toBe 2 name.length ++ name) ++
        ([] ++ (Amf0Type.number.marker :: Bytes.toBe 8 number ++
          ([] ++ ([Amf0Type.object.marker] ++
            (members.flatMap ConnectMember.bytes ++ objectEndMarker)))))))
      (.ok ()) t' := by
    unfold readConnectWithEncoding
    refine (filling_decided _ _).then_ok ((reads_decided (reads_name hname) _).then_ok ?_)
    refine (filling_decided _ _).then_ok ((reads_decided hbits _).then_ok ?_)
    refine (filling_decided _ _).then_ok ((reads_decided reads_object_begin _).then_ok ?_)
    exact h.decided (value_marked _) hfew
  obtain ⟨h₁, h₂, -⟩ := hall s tail (by
    rw [show unreadInput s = _ from hs]
    simp only [connectPayload, List.append_assoc, List.nil_append, List.cons_append]) rfl
  exact ⟨h₁, h₂⟩

/-- A command that can be read is made up of members that can. -/
theorem connect_is_read {s : Buffer × ConnectOutput}
    (hok : (readConnectWithEncoding.on s).1 = .ok ()) :
    ∃ name number members tail, s.1.peek = connectPayload name number members tail ∧
      name.length < 64 ∧ number < 256 ^ 8 ∧ members.length ≤ maxConnectObjectKeys ∧
      connectRead (connectStart name number) members (readConnectWithEncoding.on s).2.2 := by
  unfold readConnectWithEncoding at hok ⊢
  rw [on_filling_then] at hok ⊢
  obtain ⟨name, b₁, d₁, hd₁, ⟨rfl, hlen, -⟩, heq⟩ := reading_then_ok (sound_string 64) hok
  rw [heq, on_filling_then] at hok ⊢
  obtain ⟨number, b₂, d₂, hd₂, ⟨rfl, hbits⟩, heq⟩ := reading_then_ok sound_number_value hok
  rw [heq, on_filling_then] at hok ⊢
  obtain ⟨_, b₃, d₃, hd₃, rfl, heq⟩ := reading_then_ok sound_object_begin hok
  rw [heq] at hok ⊢
  obtain ⟨members, hfew, hmembers, hread⟩ := members_are_read exact_connect_field
    maxConnectObjectKeys (b₃, connectStart name number) hok
  refine ⟨name, number, members, unreadInput ((readMembers readConnectField
    maxConnectObjectKeys).on (b₃, connectStart name number)).2, ?_, hlen, hbits, hfew, hread⟩
  have hb₁ : b₁.peek = _ := hd₂
  have hb₂ : b₂.peek = _ := hd₃
  have hb₃ : b₃.peek = _ := hmembers
  rw [show s.1.peek = _ from hd₁, hb₁, hb₂, hb₃]
  rfl

/-- The bytes of a `connect`, taken apart into well-formed members. -/
structure IsConnect (payload name : List UInt8) (number : Nat) (members : List ConnectMember)
    (tail : List UInt8) : Prop where
  bytes : payload = connectPayload name number members tail
  name_short : name.length < 64
  number_fits : number < 256 ^ 8
  members_fit : ∀ m ∈ members, m.key.length < 256 ∧ Value (maxSkipDepth + 1) m.value

theorem reads_member {m : ConnectMember} {depth : Nat}
    (h : m.key.length < 256 ∧ Value depth m.value) :
    Reads Buffer.peek (readObjectKey 256 >>= fun key =>
      (readType >>= skipValueDepth depth) >>= fun _ => pure key) m.bytes m.key := by
  have hkey : Reads Buffer.peek (readObjectKey 256)
      (Bytes.toBe 2 m.key.length ++ m.key) m.key := by
    refine (reads_be .io (Nat.lt_trans h.1 (by decide))).bind ?_
    rw [if_neg (Nat.not_le.mpr h.1)]
    exact reads_bytes .amf rfl
  have hvalue := (reads_value (reads_body depth) m.value h.2).map (fun _ => m.key)
  have hall := hkey.bind (f := fun key => (readType >>= skipValueDepth depth) >>= fun _ => pure key)
    hvalue
  rwa [List.append_assoc] at hall

/-- There is one way to take members up to their end marker apart. -/
theorem members_unique {depth : Nat} {tail tail' : List UInt8} :
    ∀ (members members' : List ConnectMember) (b : Buffer),
      (∀ m ∈ members, m.key.length < 256 ∧ Value depth m.value) →
      (∀ m ∈ members', m.key.length < 256 ∧ Value depth m.value) →
      b.peek = members.flatMap ConnectMember.bytes ++ (objectEndMarker ++ tail) →
      b.peek = members'.flatMap ConnectMember.bytes ++ (objectEndMarker ++ tail') →
      members' = members ∧ tail' = tail := by
  have hend {m : ConnectMember} {rest tail : List UInt8}
      (hm : m.key.length < 256 ∧ Value depth m.value)
      (heq : m.bytes ++ rest = objectEndMarker ++ tail) : False := by
    refine member_not_end (value_marked depth) rest (Nat.lt_trans hm.1 (by decide)) hm.2 ?_
    rw [ConnectMember.bytes, List.append_assoc, List.append_assoc] at heq
    rw [heq]
    rfl
  intro members
  induction members with
  | nil =>
    intro members' b _ hfit' hb hb'
    cases members' with
    | nil => exact ⟨rfl, List.append_cancel_left (hb'.symm.trans hb)⟩
    | cons m members' =>
      rw [List.flatMap_cons, List.append_assoc] at hb'
      exact (hend (hfit' m List.mem_cons_self) (hb'.symm.trans hb)).elim
  | cons m members ih =>
    intro members' b hfit hfit' hb hb'
    rw [List.flatMap_cons, List.append_assoc] at hb
    cases members' with
    | nil => exact (hend (hfit m List.mem_cons_self) (hb.symm.trans hb')).elim
    | cons m' members' =>
      rw [List.flatMap_cons, List.append_assoc] at hb'
      have hread := reads_member (hfit m List.mem_cons_self)
      have hread' := reads_member (hfit' m' List.mem_cons_self)
      obtain ⟨hbytes, htail⟩ := hread.unique hread' hb hb'
      obtain ⟨hok, hnext⟩ := hread b _ hb
      have hkey : m'.key = m.key :=
        Except.ok.inj ((hread' b _ hb').1.symm.trans hok)
      obtain ⟨rfl, rfl⟩ := ih members' _ (fun m hm => hfit m (List.mem_cons_of_mem _ hm))
        (fun m hm => hfit' m (List.mem_cons_of_mem _ hm)) hnext (hnext.trans htail.symm)
      obtain ⟨key, value⟩ := m
      obtain ⟨key', value'⟩ := m'
      dsimp only at hkey
      subst hkey
      have hvalue : value' = value :=
        List.append_cancel_left (List.append_cancel_left hbytes)
      exact ⟨by rw [hvalue], rfl⟩

/-- There is one way to take a `connect` apart. -/
theorem IsConnect.unique {b : Buffer} {name' : List UInt8} {number' : Nat}
    {members members' : List ConnectMember} {tail tail' : List UInt8}
    (h : IsConnect b.peek name number members tail)
    (h' : IsConnect b.peek name' number' members' tail') :
    name' = name ∧ number' = number ∧ members' = members ∧ tail' = tail := by
  have hbits {n : Nat} (hn : n < 256 ^ 8) : Reads Buffer.peek readNumberValue
      (Amf0Type.number.marker :: Bytes.toBe 8 n) n := by
    have h := reads_number_value (Bytes.to_be_length 8 n)
    rwa [Bytes.of_be_to_be_lt hn] at h
  have hread := reads_name h.name_short
  have hread' := reads_name h'.name_short
  obtain ⟨-, hrest⟩ := hread.unique hread' h.bytes h'.bytes
  obtain ⟨hok, hnext⟩ := hread b _ h.bytes
  have hname : name' = name := Except.ok.inj ((hread' b _ h'.bytes).1.symm.trans hok)
  have hnext' := hnext.trans hrest.symm
  obtain ⟨-, hrest⟩ := (hbits h.number_fits).unique (hbits h'.number_fits) hnext hnext'
  obtain ⟨hok, hlast⟩ := hbits h.number_fits _ _ hnext
  have hnumber : number' = number :=
    Except.ok.inj ((hbits h'.number_fits _ _ hnext').1.symm.trans hok)
  have hlast' := hlast.trans hrest.symm
  obtain ⟨-, hmembers⟩ := reads_object_begin _ _ hlast
  obtain ⟨-, hmembers'⟩ := reads_object_begin _ _ hlast'
  obtain ⟨hsame, htail⟩ := members_unique members members' _ h.members_fit h'.members_fit
    hmembers hmembers'
  exact ⟨hname, hnumber, hsame, htail⟩

end Payloads

/-- A `connect` that can be read is one of well-formed members. Without the capabilities that were
rejected it can be read as well, with the same texts and numbers; and the same is negotiated when
no rejected FourCC list comes after an accepted one, and no rejected info map after an accepted
one. Where one does, the same is negotiated only if what it leaves behind comes to the same as
what was accepted. -/
theorem rejected_caps_as_absent (s : Buffer × ConnectOutput)
    (hok : (readConnectWithEncoding.on s).1 = .ok ()) :
    (∃ name number members tail, IsConnect s.1.peek name number members tail) ∧
    ∀ name number members tail, IsConnect s.1.peek name number members tail →
      ∀ s' : Buffer × ConnectOutput,
        s'.1.peek = connectPayload name number (withoutRejected members) tail →
        (readConnectWithEncoding.on s').1 = .ok () ∧
        (readConnectWithEncoding.on s').2.2.plain = (readConnectWithEncoding.on s).2.2.plain ∧
        (RejectedFirst .fourCcList members → RejectedFirst .videoFourCcInfoMap members →
          negotiateCaps (readConnectWithEncoding.on s').2.2.info =
            negotiateCaps (readConnectWithEncoding.on s).2.2.info) ∧
        (negotiateCaps (readConnectWithEncoding.on s').2.2.info =
            negotiateCaps (readConnectWithEncoding.on s).2.2.info ↔ RetainsCaps members) := by
  obtain ⟨name, number, members, tail, hpeek, hname, hnumber, hfew, hread⟩ := connect_is_read hok
  have hconnect : IsConnect s.1.peek name number members tail :=
    ⟨hpeek, hname, hnumber, hread.well_formed⟩
  refine ⟨⟨name, number, members, tail, hconnect⟩, ?_⟩
  intro name' number' members' tail' hconnect' s' hs'
  obtain ⟨rfl, rfl, rfl, rfl⟩ := hconnect.unique hconnect'
  generalize (readConnectWithEncoding.on s).2.2 = t at hread
  obtain ⟨u, hread', hbare⟩ := without_rejected_read hread rfl
  have hfew' : (withoutRejected members').length ≤ maxConnectObjectKeys :=
    Nat.le_trans (List.length_filter_le _ _) hfew
  obtain ⟨hok', hout⟩ := connect_decided hname hnumber hfew' hread' hs'
  have hretains : negotiateCaps u.info = negotiateCaps t.info ↔ RetainsCaps members' := by
    refine (negotiate_iff hbare).trans (and_congr ?_ ?_)
    · exact retains_iff (fun info => info.fourCcList) (fun t => t.info.hasFourCcList)
        (connectStart name' number') rfl (last_sets list_step hread)
        (last_sets list_step hread') (offered_by_accepted list_offered hread)
    · exact retains_iff (fun info => info.videoFourCcInfoMap)
        (fun t => t.info.hasVideoFourCcInfoMap) (connectStart name' number') rfl
        (last_sets map_step hread) (last_sets map_step hread')
        (offered_by_accepted map_offered hread)
  rw [hout]
  exact ⟨hok', (bare_plain hbare).symm,
    fun hlist hmap => hretains.mpr ⟨rejected_first_retains hlist _, rejected_first_retains hmap _⟩,
    hretains⟩

def avcList : ConnectMember :=
  ⟨CapField.fourCcList.name.toUTF8.data.toList,
    [0x0A, 0, 0, 0, 1, 0x02, 0, 4, 0x61, 0x76, 0x63, 0x31]⟩

def numberList : ConnectMember :=
  ⟨CapField.fourCcList.name.toUTF8.data.toList, 0x00 :: Bytes.toBe 8 0x4014000000000000⟩

def readWith (members : List ConnectMember) : Except ErrorCode Unit × Buffer × ConnectOutput :=
  readConnectWithEncoding.on
    (bufferOf (connectPayload "connect".toUTF8.data.toList 0x3FF0000000000000 members []), {})

theorem number_list_then_avc_read : (readWith [numberList, avcList]).1 = .ok () ∧
    (readWith [avcList]).1 = .ok () ∧
    negotiateCaps (readWith [avcList]).2.2.info =
      negotiateCaps (readWith [numberList, avcList]).2.2.info := by
  have hok : (readWith [numberList, avcList]).1 = .ok () := by decide +kernel
  have haccepted : avcList.rejected = false := by decide +kernel
  have hrejected : numberList.rejected = true := by decide +kernel
  have hkept : withoutRejected [numberList, avcList] = [avcList] := by
    simp [withoutRejected, haccepted, hrejected]
  have hnumber : Value (maxSkipDepth + 1) numberList.value :=
    Value.scalar (.number (Bytes.to_be_length 8 _)) _
  have hlist : Value (maxSkipDepth + 1) avcList.value :=
    Value.container (.strictArray (n := 1) (by decide)
      (.cons (string_value (s := [0x61, 0x76, 0x63, 0x31]) (by decide) _) .nil))
  have hconnect : IsConnect (bufferOf (connectPayload "connect".toUTF8.data.toList
      0x3FF0000000000000 [numberList, avcList] [])).peek "connect".toUTF8.data.toList
      0x3FF0000000000000 [numberList, avcList] [] := by
    refine ⟨peek_buffer_of (by decide), by decide, by decide, ?_⟩
    simp only [List.mem_cons, List.not_mem_nil, or_false, forall_eq_or_imp, forall_eq]
    exact ⟨⟨by decide, hnumber⟩, ⟨by decide, hlist⟩⟩
  have hfirst (field : CapField) : RejectedFirst field [numberList, avcList] := by
    simp [RejectedFirst, haccepted]
  have hreduced : (bufferOf (connectPayload "connect".toUTF8.data.toList 0x3FF0000000000000
      [avcList] [])).peek = connectPayload "connect".toUTF8.data.toList 0x3FF0000000000000
      (withoutRejected [numberList, avcList]) [] := by
    rw [hkept]
    exact peek_buffer_of (by decide)
  unfold readWith at hok ⊢
  generalize bufferOf (connectPayload "connect".toUTF8.data.toList 0x3FF0000000000000
    [numberList, avcList] []) = b at hok hconnect
  generalize bufferOf (connectPayload "connect".toUTF8.data.toList 0x3FF0000000000000
    [avcList] []) = b' at hreduced
  obtain ⟨hread, -, hnegotiate, -⟩ :=
    (rejected_caps_as_absent (b, {}) hok).2 _ _ _ _ hconnect (b', {}) hreduced
  exact ⟨hok, hread, hnegotiate (hfirst _) (hfirst _)⟩

/-- A malformed list behind a good one takes what that one offered. -/
theorem malformed_list_empties_offer :
    withoutRejected [avcList, numberList] = [avcList] ∧
    (readWith [avcList, numberList]).1 = .ok () ∧
    (negotiateCaps (readWith [avcList, numberList]).2.2.info).fourCcList = [] ∧
    (readWith [avcList]).1 = .ok () ∧
    (negotiateCaps (readWith [avcList]).2.2.info).fourCcList = [.avc1] := by
  refine ⟨?_, ?_, ?_, ?_, ?_⟩
  · have haccepted : avcList.rejected = false := by decide +kernel
    have hrejected : numberList.rejected = true := by decide +kernel
    simp [withoutRejected, haccepted, hrejected]
  · decide +kernel
  · decide +kernel
  · decide +kernel
  · decide +kernel

end LibRtmp.Proofs
