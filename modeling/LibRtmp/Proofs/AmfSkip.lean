import LibRtmp.Amf.Grammar
import LibRtmp.Proofs.AmfWrite

namespace LibRtmp.Proofs

open Actions Parsing Amf0

variable (depth : Nat) {ty : Amf0Type} {d : List UInt8}

section Markers

theorem of_marker (ty : Amf0Type) : Amf0Type.ofMarker ty.marker = some ty := by
  cases ty <;> rfl

theorem of_marker_some {b : UInt8} {ty : Amf0Type} (h : Amf0Type.ofMarker b = some ty) :
    b = ty.marker := by
  unfold Amf0Type.ofMarker at h
  apply UInt8.toNat_inj.mp
  split at h <;> cases h <;> assumption

theorem reads_u8 (b : UInt8) : Reads Buffer.peek readU8 [b] b :=
  (reads_bytes .io (d := [b]) rfl).map (fun d => d.headD 0)

theorem sound_u8 : Sound Buffer.peek readU8 (fun b d => d = [b]) := by
  refine (sound_bytes .io 1).bind fun d d' hd => sound_pure ?_
  obtain ⟨rfl, hlen⟩ := hd
  obtain ⟨b, rfl⟩ := List.length_eq_one_iff.mp hlen
  rfl

theorem reads_type (ty : Amf0Type) : Reads Buffer.peek readType [ty.marker] ty := by
  refine (reads_u8 ty.marker).bind (e := []) ?_
  rw [of_marker]
  exact reads_pure ty

theorem sound_type : Sound Buffer.peek readType (fun ty d => d = [ty.marker]) := by
  refine sound_u8.bind fun b d hd => ?_
  cases hty : Amf0Type.ofMarker b with
  | none => exact sound_throw _
  | some ty =>
    refine sound_pure ?_
    rw [hd, of_marker_some hty]
    rfl

end Markers

section Scalars

/-- A length and that many bytes. -/
theorem reads_counted {n : Nat} {d : List UInt8} (h : d.length < 256 ^ n) :
    Reads Buffer.peek (readBe .io n >>= dropBytes .io) (Bytes.toBe n d.length ++ d) () :=
  (reads_be .io h).bind (reads_drop .io rfl)

theorem sound_counted (n : Nat) : Sound Buffer.peek (readBe .io n >>= dropBytes .io)
    (fun _ e => ∃ d, e = Bytes.toBe n d.length ++ d ∧ d.length < 256 ^ n) := by
  refine (sound_be .io n).bind fun k e he => (sound_drop .io k).mono fun _ d hd => ?_
  obtain ⟨hk, rfl⟩ := he
  subst hd
  exact ⟨d, rfl, hk⟩

theorem reads_scalar (h : Scalar ty d) :
    Reads Buffer.peek (skipScalar ty) d () := by
  cases h with
  | number h =>
    exact ((reads_bytes .io h).map Bytes.ofBe).map (fun _ => ())
  | boolean h =>
    obtain ⟨b, rfl⟩ := List.length_eq_one_iff.mp h
    exact (reads_u8 b).map (fun _ => ())
  | string h => exact reads_counted h
  | longString h => exact reads_counted h
  | xmlDoc h => exact reads_counted h
  | date h => exact reads_drop .io h
  | reference h => exact reads_drop .io h
  | null => exact reads_pure ()
  | undefined => exact reads_pure ()
  | movieclip => exact reads_pure ()

theorem sound_scalar (ty : Amf0Type) :
    Sound Buffer.peek (skipScalar ty) (fun _ d => Scalar ty d) := by
  have hcounted {n : Nat} {ty : Amf0Type}
      (h : ∀ d : List UInt8, d.length < 256 ^ n → Scalar ty (Bytes.toBe n d.length ++ d)) :
      Sound Buffer.peek (readBe .io n >>= dropBytes .io) (fun _ d => Scalar ty d) :=
    (sound_counted n).mono fun _ e ⟨d, he, hd⟩ => he ▸ h d hd
  cases ty with
  | number =>
    refine (sound_be .io 8).bind fun k d hd => sound_pure (.number ?_)
    rw [hd.2, List.append_nil, Bytes.to_be_length]
  | boolean =>
    refine sound_u8.bind fun b d hd => sound_pure (.boolean ?_)
    rw [hd]
    rfl
  | string => exact hcounted fun _ h => .string h
  | longString => exact hcounted fun _ h => .longString h
  | xmlDoc => exact hcounted fun _ h => .xmlDoc h
  | date => exact (sound_drop .io 10).mono fun _ _ => .date
  | reference => exact (sound_drop .io 2).mono fun _ _ => .reference
  | null => exact sound_pure .null
  | undefined => exact sound_pure .undefined
  | movieclip => exact sound_pure .movieclip
  | _ => exact sound_throw _

end Scalars

section EndMarker

variable {more : ReadM Unit}

theorem on_unless_end (b : Buffer) : (unlessEnd more).on b =
    if isObjectEnd b then (readBytes .io 3 >>= fun _ => pure () : ReadM Unit).on b
    else more.on b := by
  rw [unlessEnd, Action.on_bind, Action.on_get]
  dsimp only
  split <;> rfl

theorem reads_end : Reads Buffer.peek (unlessEnd more) [0x00, 0x00, 0x09] () := by
  intro b tail hb
  have hend : isObjectEnd b = true := by rw [isObjectEnd, hb]; rfl
  rw [on_unless_end, if_pos hend]
  exact (reads_bytes .io (d := [0x00, 0x00, 0x09]) rfl).map (fun _ => ()) b tail hb

/-- Three bytes that are not the end marker are left for what comes next. -/
theorem reads_more (hlen : 3 ≤ d.length) (hd : d.take 3 ≠ [0x00, 0x00, 0x09])
    (h : Reads Buffer.peek more d ()) : Reads Buffer.peek (unlessEnd more) d () := by
  intro b tail hb
  have hend : isObjectEnd b = false := by
    rw [isObjectEnd, hb, List.take_append_of_le_length hlen]
    exact beq_eq_false_iff_ne.mpr hd
  rw [on_unless_end, if_neg (by rw [hend]; exact Bool.false_ne_true)]
  exact h b tail hb

theorem sound_unless_end {P : List UInt8 → Prop} (h : Sound Buffer.peek more (fun _ d => P d))
    (hend : P [0x00, 0x00, 0x09]) : Sound Buffer.peek (unlessEnd more) (fun _ d => P d) := by
  intro b u hu
  rw [on_unless_end] at hu ⊢
  by_cases he : isObjectEnd b = true
  · rw [if_pos he] at hu ⊢
    have hread := (sound_bytes .io 3).bind (f := fun _ => pure ())
      (Q := fun (_ : Unit) d => d.length = 3) fun _ d hd =>
        sound_pure (by rw [List.append_nil]; exact hd.2)
    obtain ⟨d, hd, hlen⟩ := hread b u hu
    have htake : b.peek.take 3 = d := by rw [hd, ← hlen, List.take_left]
    rw [isObjectEnd, htake] at he
    exact ⟨d, hd, by rw [beq_iff_eq.mp he]; exact hend⟩
  · rw [if_neg he] at hu ⊢
    exact h b u hu

end EndMarker

section Containers

variable {skip : Amf0Type → ReadM Unit} {V : List UInt8 → Prop}

def ReadsAll (skip : Amf0Type → ReadM Unit) (V : List UInt8 → Prop) : Prop :=
  ∀ v, V v → Reads Buffer.peek (readType >>= skip) v ()

def SoundAll (skip : Amf0Type → ReadM Unit) (V : List UInt8 → Prop) : Prop :=
  Sound Buffer.peek (readType >>= skip) (fun _ v => V v)

theorem reads_items (hs : ReadsAll skip V) {n : Nat} {d : List UInt8} (h : Items V n d) :
    Reads Buffer.peek (skipItems skip n) d () := by
  induction h with
  | nil => exact reads_pure ()
  | cons h _ ih =>
    have hcons := (hs _ h).bind (f := fun _ => skipItems skip _) ih
    rwa [bind_assoc] at hcons

theorem sound_items (hs : SoundAll skip V) (n : Nat) :
    Sound Buffer.peek (skipItems skip n) (fun _ d => Items V n d) := by
  induction n with
  | zero => exact sound_pure .nil
  | succ n ih =>
    have hcons := hs.bind (f := fun _ => skipItems skip n) (Q := fun _ d => Items V (n + 1) d)
      fun _ d hd => ih.mono fun _ e he => .cons hd he
    rwa [bind_assoc] at hcons

def Marked (V : List UInt8 → Prop) : Prop := ∀ v, V v → ∃ b e, v = b :: e ∧ b ≠ 0x09

/-- A key and a value are not taken for the end marker, even if the key is empty. -/
theorem member_not_end (hv : Marked V) {key d : List UInt8} (e : List UInt8)
    (hk : key.length < 2 ^ 16) (h : V d) :
    (Bytes.toBe 2 key.length ++ (key ++ (d ++ e))).take 3 ≠ [0x00, 0x00, 0x09] := by
  obtain ⟨b, e', rfl, hb⟩ := hv d h
  intro heq
  have hlen : Bytes.toBe 2 key.length = [0x00, 0x00] := by
    have htake := congrArg (List.take 2) heq
    rwa [List.take_take, Nat.min_eq_left (by omega),
      List.take_append_of_le_length (by simp), List.take_of_length_le (by simp)] at htake
  have hnil : key = [] := by
    have hz := congrArg Bytes.ofBe hlen
    rw [Bytes.of_be_to_be_lt hk] at hz
    exact List.length_eq_zero_iff.mp hz
  rw [hlen, hnil] at heq
  simp only [List.nil_append, List.cons_append, List.take_succ_cons, List.take_zero] at heq
  exact hb (by injection heq with _ heq; injection heq with _ heq; injection heq)

theorem reads_members (hs : ReadsAll skip V) (hv : Marked V) {n : Nat} {d : List UInt8}
    (h : Members V n d) {keys : Nat} (hn : n ≤ keys) :
    Reads Buffer.peek (skipMembers skip keys) d () := by
  induction h generalizing keys with
  | nil => cases keys <;> exact reads_end
  | @cons n key d e hk h t ih =>
    obtain ⟨keys, rfl⟩ : ∃ k, keys = k + 1 := ⟨keys - 1, by omega⟩
    refine reads_more ?_ (member_not_end hv e hk h) ?_
    · obtain ⟨b, e', rfl, -⟩ := hv d h
      simp only [List.length_append, Bytes.to_be_length, List.length_cons]
      omega
    · have hvalue := (hs d h).bind (f := fun _ => skipMembers skip keys) (ih (by omega))
      rw [bind_assoc] at hvalue
      exact (reads_be .io hk).bind ((reads_drop .io rfl).bind hvalue)

theorem sound_members (hs : SoundAll skip V) (keys : Nat) :
    Sound Buffer.peek (skipMembers skip keys) (fun _ d => ∃ n ≤ keys, Members V n d) := by
  induction keys with
  | zero => exact sound_unless_end (sound_throw _) ⟨0, Nat.le_refl 0, .nil⟩
  | succ keys ih =>
    refine sound_unless_end ?_ ⟨0, Nat.zero_le _, .nil⟩
    refine (sound_be .io 2).bind fun k d hd => (sound_drop .io k).bind fun _ key hkey => ?_
    obtain ⟨hk, rfl⟩ := hd
    subst hkey
    have hcons := hs.bind (f := fun _ => skipMembers skip keys)
      (Q := fun _ e => ∃ n ≤ keys + 1,
        Members V n (Bytes.toBe 2 key.length ++ (key ++ e))) fun _ d hd => ih.mono ?_
    · rwa [bind_assoc] at hcons
    · rintro _ e ⟨n, hn, he⟩
      exact ⟨n + 1, by omega, .cons hk hd he⟩

end Containers

section Values

theorem scalar_skip (h : Scalar ty d) (room : Nat) :
    skipValueDepth room ty = skipScalar ty := by
  cases h <;> rw [skipValueDepth] <;> simp

theorem value_marked : Marked (Value depth) := by
  rintro v ⟨ty, e, rfl, hb⟩
  refine ⟨ty.marker, e, rfl, fun hm => ?_⟩
  have hty : ty = .objectEnd := by
    have h := of_marker ty
    rw [hm] at h
    exact (Option.some.inj h).symm
  subst hty
  cases depth with
  | zero => cases hb
  | succ depth => rcases hb with hb | hb <;> cases hb

theorem reads_value {depth : Nat}
    (h : ∀ ty d, Body depth ty d → Reads Buffer.peek (skipValueDepth depth ty) d ()) :
    ReadsAll (skipValueDepth depth) (Value depth) := by
  rintro v ⟨ty, e, rfl, hb⟩
  exact (reads_type ty).bind (h ty e hb)

/-- Every value is skipped exactly, whatever follows. -/
theorem reads_body : ∀ ty d, Body depth ty d →
    Reads Buffer.peek (skipValueDepth depth ty) d () := by
  -- Induction on the nesting that is left: the items of a container have one level less.
  induction depth with
  | zero =>
    intro ty d h
    rw [scalar_skip h]
    exact reads_scalar h
  | succ depth ih =>
    intro ty d h
    rcases h with h | h
    · rw [scalar_skip h]
      exact reads_scalar h
    · have hs : ReadsAll (skipValueDepth depth) (Value depth) := reads_value ih
      have hv := value_marked depth
      cases h with
      | strictArray hn h =>
        refine (reads_be .io (Nat.lt_of_le_of_lt hn (by decide))).bind ?_
        rw [if_neg (show ¬ _ > maxObjectKeys from Nat.not_lt.mpr hn)]
        exact reads_items hs h
      | object hn h => exact reads_members hs hv h hn
      | ecmaArray hc hn h =>
        exact ((reads_bytes .io hc).map Bytes.ofBe).bind (reads_members hs hv h hn)
      | typedObject hc hn h =>
        exact (reads_be .io hc).bind ((reads_drop .io rfl).bind (reads_members hs hv h hn))

theorem sound_value {depth : Nat}
    (h : ∀ ty, Sound Buffer.peek (skipValueDepth depth ty) (fun _ d => Body depth ty d)) :
    SoundAll (skipValueDepth depth) (Value depth) := by
  refine sound_type.bind fun ty d hd => (h ty).mono fun _ e he => ?_
  subst hd
  exact ⟨ty, e, rfl, he⟩

/-- Only values are skipped. -/
theorem sound_body : ∀ ty,
    Sound Buffer.peek (skipValueDepth depth ty) (fun _ d => Body depth ty d) := by
  induction depth with
  | zero =>
    intro ty
    cases ty with
    | strictArray => exact sound_throw _
    | object => exact sound_throw _
    | ecmaArray => exact sound_throw _
    | typedObject => exact sound_throw _
    | _ => exact sound_scalar _
  | succ depth ih =>
    have hs : SoundAll (skipValueDepth depth) (Value depth) := sound_value ih
    intro ty
    cases ty with
    | strictArray =>
      refine (sound_be .io 4).bind fun n d hd => ?_
      obtain ⟨-, rfl⟩ := hd
      split
      · exact sound_throw _
      · rename_i hn
        exact (sound_items hs n).mono fun _ d h => .inr (.strictArray (Nat.not_lt.mp hn) h)
    | object => exact (sound_members hs _).mono fun _ d ⟨n, hn, h⟩ => .inr (.object hn h)
    | ecmaArray =>
      refine (sound_be .io 4).bind fun n count hd => (sound_members hs _).mono ?_
      rintro _ d ⟨n, hn, h⟩
      exact .inr (.ecmaArray (by rw [hd.2, Bytes.to_be_length]) hn h)
    | typedObject =>
      refine (sound_be .io 2).bind fun k d hd => (sound_drop .io k).bind fun _ name hname =>
        (sound_members hs _).mono ?_
      rintro _ e ⟨n, hn, h⟩
      obtain ⟨hk, rfl⟩ := hd
      subst hname
      exact .inr (.typedObject hk hn h)
    | _ => exact (sound_scalar _).mono fun _ _ h => .inl h

end Values

section Depths

variable {V W : List UInt8 → Prop}

theorem Items.weaken (h : ∀ v, V v → W v) {n : Nat} {d : List UInt8} (hd : Items V n d) :
    Items W n d := by
  induction hd with
  | nil => exact .nil
  | cons hv _ ih => exact .cons (h _ hv) ih

theorem Members.weaken (h : ∀ v, V v → W v) {n : Nat} {d : List UInt8} (hd : Members V n d) :
    Members W n d := by
  induction hd with
  | nil => exact .nil
  | cons hk hv _ ih => exact .cons hk (h _ hv) ih

theorem Container.weaken (h : ∀ v, V v → W v) {ty : Amf0Type} {d : List UInt8}
    (hd : Container V ty d) : Container W ty d := by
  cases hd with
  | strictArray hn hd => exact .strictArray hn (Items.weaken h hd)
  | object hn hd => exact .object hn (Members.weaken h hd)
  | ecmaArray hc hn hd => exact .ecmaArray hc hn (Members.weaken h hd)
  | typedObject hc hn hd => exact .typedObject hc hn (Members.weaken h hd)

theorem Body.scalar (h : Scalar ty d) (depth : Nat) :
    Body depth ty d := by
  cases depth with
  | zero => exact h
  | succ depth => exact .inl h

/-- A value may be nested less deep than there is room for. -/
theorem Body.deeper : ∀ {depth depth' : Nat} {ty : Amf0Type} {d : List UInt8},
    Body depth ty d → depth ≤ depth' → Body depth' ty d
  | 0, depth', _, _, h, _ => Body.scalar h depth'
  | depth + 1, depth' + 1, _, _, h, hle => by
    rcases h with h | h
    · exact .inl h
    · refine .inr (Container.weaken ?_ h)
      rintro v ⟨ty, e, rfl, he⟩
      exact ⟨ty, e, rfl, Body.deeper he (by omega)⟩

end Depths

section Trees

theorem Value.scalar {e : List UInt8} (h : Scalar ty e) (depth : Nat) :
    Value depth (ty.marker :: e) :=
  ⟨ty, e, rfl, Body.scalar h depth⟩

theorem Value.container {e : List UInt8} {depth : Nat}
    (h : Container (Value depth) ty e) : Value (depth + 1) (ty.marker :: e) :=
  ⟨ty, e, rfl, .inr h⟩

mutual

/-- What the writers make of a tree is a value. -/
theorem tree_value : ∀ (t : Tree) (depth : Nat), t.Fits depth →
    Emits Buffer.peek t.write (fun _ d => Value depth d)
  | .number bits, depth, _ =>
    (emits_number bits).mono fun _ _ h =>
      h ▸ Value.scalar (.number (Bytes.to_be_length 8 _)) depth
  | .boolean value, depth, _ =>
    (emits_boolean value).mono fun _ _ h => h ▸ Value.scalar (.boolean rfl) depth
  | .null, depth, _ => (emits_all _).mono fun _ _ h => h ▸ Value.scalar .null depth
  | .undefined, depth, _ => (emits_all _).mono fun _ _ h => h ▸ Value.scalar .undefined depth
  | .string s, depth, _ =>
    (emits_string s).mono fun _ _ h => h.1 ▸ Value.scalar (.string h.2) depth
  | .longString s, depth, _ =>
    (emits_long_string_bytes _).mono fun _ _ h => h.1 ▸ Value.scalar (.longString h.2) depth
  | .longStringBytes data, depth, _ =>
    (emits_long_string_bytes data).mono fun _ _ h => h.1 ▸ Value.scalar (.longString h.2) depth
  | .object members, depth + 1, h =>
    emits_then _ ((fields_members members depth h.2).bind fun _ d hd =>
      (emits_all _).mono fun _ _ he => he ▸ Value.container (.object h.1 hd))
  | .ecmaArray count members, depth + 1, h =>
    (emits_ecma_array_begin count).bind fun _ c hc =>
      (fields_members members depth h.2).bind fun _ d hd =>
        (emits_all _).mono fun _ _ he => by
          subst hc he
          exact Value.container (.ecmaArray (Bytes.to_be_length 4 _) h.1 hd)

/-- Fields and the end marker are the members of an object. -/
theorem fields_members : ∀ (members : Fields) (depth : Nat), members.Fits depth →
    Emits Buffer.peek members.write
      (fun _ d => Members (Value depth) members.size (d ++ [0x00, 0x00, 0x09]))
  | .nil, _, _ => emits_pure .nil
  | .cons key value members, depth, h =>
    (emits_object_key key).bind fun _ k hk => (tree_value value depth h.1).bind fun _ v hv =>
      (fields_members members depth h.2).mono fun _ e he => by
        obtain ⟨rfl, hlen⟩ := hk
        have hcons : Members (Value depth) (members.size + 1) (Bytes.toBe 2 key.utf8ByteSize ++
            (key.toUTF8.data.toList ++ (v ++ (e ++ [0x00, 0x00, 0x09])))) := .cons hlen hv he
        simpa only [Fields.size, objectKey, List.append_assoc] using hcons

end

end Trees

/-- Skipping succeeds exactly on the encodings of values nested at most 32 deep and consumes
exactly the one that the buffer starts with, and that is what the writers write. -/
theorem skip_value_recognises_one_value (b : Buffer) :
    ((∃ u, (skipValue.on b).1 = .ok u) ↔ ∃ v tail, b.peek = v ++ tail ∧ Value 32 v) ∧
    (∀ v tail, b.peek = v ++ tail → Value 32 v →
      (skipValue.on b).1 = .ok () ∧ (skipValue.on b).2.peek = tail ∧
        ∀ v' tail', b.peek = v' ++ tail' → Value 32 v' → v' = v) ∧
    ∀ (t : Tree) (out : Buffer), t.Fits 32 → (t.write.on out).1 = .ok () →
      ∃ v, (t.write.on out).2.peek = out.peek ++ v ∧
        ∀ tail, b.peek = v ++ tail → (skipValue.on b).1 = .ok () ∧ (skipValue.on b).2.peek = tail := by
  have hreads : ∀ v, Value 32 v → Reads Buffer.peek skipValue v () := reads_value (reads_body 32)
  have hsound : Sound Buffer.peek skipValue (fun _ v => Value 32 v) := sound_value (sound_body 32)
  refine ⟨⟨?_, ?_⟩, ?_, ?_⟩
  · rintro ⟨u, hu⟩
    obtain ⟨v, hv, hval⟩ := hsound b u hu
    exact ⟨v, _, hv, hval⟩
  · rintro ⟨v, tail, hv, hval⟩
    exact ⟨(), (hreads v hval b tail hv).1⟩
  · intro v tail hv hval
    obtain ⟨hok, htail⟩ := hreads v hval b tail hv
    exact ⟨hok, htail, fun v' tail' hv' hval' =>
      ((hreads v hval).unique (hreads v' hval') hv hv').1⟩
  · intro t out hfits hok
    obtain ⟨v, hv, hval⟩ := tree_value t 32 hfits out () hok
    exact ⟨v, hv, fun tail htail => hreads v hval b tail htail⟩

end LibRtmp.Proofs
