import LibRtmp.Message.Connect
import LibRtmp.Proofs.AmfSkip

namespace LibRtmp.Proofs

open Actions Parsing Amf0 Ertmp

variable {s : List UInt8} (data : List UInt8) (key : List UInt8) (ty : Amf0Type)

section Pieces

variable {α β : Type} {m : ReadM α} {d e : List UInt8} {a : α} {x : ErrorCode}

theorem fails_throw (x : ErrorCode) (d : List UInt8) : Fails (throw x : ReadM α) d x :=
  fun _ _ _ => rfl

theorem Reads.then_fails {f : α → ReadM β} (hm : Reads Buffer.peek m d a) (hf : Fails (f a) e x) :
    Fails (m >>= f) (d ++ e) x := by
  intro b tail hb
  rw [List.append_assoc] at hb
  obtain ⟨b', hb', hon⟩ := hm.then_on f hb
  rw [hon]
  exact hf b' tail hb'

def Knowing (m : ReadM α) (d : List UInt8) : Prop :=
  (∃ a, Reads Buffer.peek m d a) ∨ ∃ x, Fails m d x

theorem Knowing.reading {T : Type} (h : Knowing m d) (t : T) :
    Local unreadInput Prod.snd (reading m) t d := by
  rcases h with ⟨a, h⟩ | ⟨x, h⟩
  · exact ⟨_, _, reads_decided h t⟩
  · exact ⟨_, _, h.decided t⟩

theorem Reads.knowing_then {f : α → ReadM β} (hm : Reads Buffer.peek m d a) (hf : Knowing (f a) e) :
    Knowing (m >>= f) (d ++ e) := by
  rcases hf with ⟨b, hf⟩ | ⟨x, hf⟩
  · exact .inl ⟨b, hm.bind hf⟩
  · exact .inr ⟨x, Reads.then_fails hm hf⟩

/-- The bytes are there, so only the other condition counts. -/
theorem knowing_guarded {P : Prop} [Decidable P] {len : Nat} (hlen : len ≤ d.length)
    (hm : Knowing m d) :
    Knowing (get >>= fun b => if P ∨ b.available < len then throw x else m) d := by
  have hon (b : Buffer) {tail : List UInt8} (hb : b.peek = d ++ tail) :
      Action.on (get >>= fun b => if P ∨ b.available < len then throw x else m) b =
        if P then (.error x, b) else m.on b := by
    have hthere : ¬ b.available < len := by
      rw [Buffer.available_eq, hb, List.length_append]
      omega
    rw [Action.on_bind, Action.on_get]
    dsimp only
    by_cases hP : P
    · rw [if_pos (.inl hP), if_pos hP]
      rfl
    · rw [if_neg (not_or.mpr ⟨hP, hthere⟩), if_neg hP]
  by_cases hP : P
  · refine .inr ⟨x, fun b tail hb => ?_⟩
    rw [hon b hb, if_pos hP]
  · rcases hm with ⟨a, hm⟩ | ⟨y, hm⟩
    · refine .inl ⟨a, fun b tail hb => ?_⟩
      rw [hon b hb, if_neg hP]
      exact hm b tail hb
    · refine .inr ⟨y, fun b tail hb => ?_⟩
      rw [hon b hb, if_neg hP]
      exact hm b tail hb

end Pieces

section Bodies

variable {depth : Nat} {e : List UInt8}

theorem body_number (h : Body depth .number e) : e.length = 8 := by
  cases depth with
  | zero =>
    cases h with
    | number h => exact h
  | succ depth =>
    rcases h with h | h
    · cases h with
      | number h => exact h
    · cases h

theorem body_string (h : Body depth .string e) :
    ∃ s : List UInt8, s.length < 2 ^ 16 ∧ e = Bytes.toBe 2 s.length ++ s := by
  cases depth with
  | zero =>
    cases h with
    | string h => exact ⟨_, h, rfl⟩
  | succ depth =>
    rcases h with h | h
    · cases h with
      | string h => exact ⟨_, h, rfl⟩
    · cases h

theorem body_long_string (h : Body depth .longString e) :
    ∃ s : List UInt8, s.length < 2 ^ 32 ∧ e = Bytes.toBe 4 s.length ++ s := by
  cases depth with
  | zero =>
    cases h with
    | longString h => exact ⟨_, h, rfl⟩
  | succ depth =>
    rcases h with h | h
    · cases h with
      | longString h => exact ⟨_, h, rfl⟩
    · cases h

theorem body_strict_array (h : Body depth .strictArray e) : ∃ inner n d, n ≤ 256 ∧
    e = Bytes.toBe 4 n ++ d ∧ Items (Value inner) n d := by
  cases depth with
  | zero => cases h
  | succ depth =>
    rcases h with h | h
    · cases h
    · cases h with
      | strictArray hn h => exact ⟨depth, _, _, hn, rfl, h⟩

theorem body_object (h : Body depth .object e) :
    ∃ inner n, inner + 1 = depth ∧ n ≤ 256 ∧ Members (Value inner) n e := by
  cases depth with
  | zero => cases h
  | succ depth =>
    rcases h with h | h
    · cases h
    · cases h with
      | object hn h => exact ⟨depth, _, rfl, hn, h⟩

theorem body_ecma_array (h : Body depth .ecmaArray e) : ∃ inner n count d, n ≤ 256 ∧
    count.length = 4 ∧ e = count ++ d ∧ Members (Value inner) n d := by
  cases depth with
  | zero => cases h
  | succ depth =>
    rcases h with h | h
    · cases h
    · cases h with
      | ecmaArray hc hn h => exact ⟨depth, _, _, _, hn, hc, rfl, h⟩

end Bodies

section Texts

variable {depth limit : Nat} {v : List UInt8}

theorem knowing_text {len : Nat} {s : List UInt8} (h : s.length = len) (limit : Nat) :
    Knowing (if len ≥ limit then throw .amf else readBytes .amf len) s := by
  by_cases hlimit : len ≥ limit
  · rw [if_pos hlimit]
    exact .inr ⟨_, fails_throw _ _⟩
  · rw [if_neg hlimit]
    exact .inl ⟨s, reads_bytes .amf h⟩

theorem knowing_string (limit : Nat) (h : Value depth v) : Knowing (readString limit) v := by
  obtain ⟨ty, e, rfl, hbody⟩ := h
  refine Reads.knowing_then (d := [ty.marker]) (reads_u8 ty.marker) ?_
  by_cases hty : ty.marker = Amf0Type.string.marker
  · have hstring : ty = .string := by
      have h := of_marker ty
      rw [hty] at h
      exact (Option.some.inj h).symm
    subst hstring
    obtain ⟨s, hs, rfl⟩ := body_string hbody
    rw [if_neg (by simp)]
    exact Reads.knowing_then (reads_be .io hs) (knowing_text rfl limit)
  · rw [if_pos hty]
    exact .inr ⟨_, fails_throw _ _⟩

theorem sound_string (limit : Nat) : Sound Buffer.peek (readString limit)
    (fun s d => d = Amf0Type.string.marker :: (Bytes.toBe 2 s.length ++ s) ∧ s.length < limit ∧
      s.length < 2 ^ 16) := by
  refine sound_u8.bind fun b d hd => ?_
  subst hd
  split
  · exact sound_throw _
  · rename_i hb
    refine (sound_be .io 2).bind fun len d hd => ?_
    obtain ⟨hlen, rfl⟩ := hd
    split
    · exact sound_throw _
    · rename_i hlimit
      refine (sound_bytes .amf len).mono fun s d hd => ?_
      obtain ⟨rfl, hs⟩ := hd
      subst hs
      rw [not_not.mp hb]
      exact ⟨rfl, Nat.not_le.mp hlimit, hlen⟩

theorem string_value (h : s.length < 2 ^ 16) (depth : Nat) :
    Value depth (Amf0Type.string.marker :: (Bytes.toBe 2 s.length ++ s)) :=
  Value.scalar (.string h) depth

end Texts

section Blobs

/-- The value of a marker and a body that are read one after the other. -/
theorem knowing_blob {depth : Nat} {ty : Amf0Type} {e : List UInt8} (h : Body depth ty e) :
    Knowing (readAmfBinaryBlob ty) e := by
  have hrest {len : Nat} {s : List UInt8} (hs : s.length = len) :
      Knowing (get >>= fun b => if len > maxCapsBlobBytes ∨ b.available < len then throw .amf
        else readBytes .amf len) s :=
    knowing_guarded (Nat.le_of_eq hs.symm) (.inl ⟨s, reads_bytes .amf hs⟩)
  cases ty with
  | longString =>
    obtain ⟨s, hs, rfl⟩ := body_long_string h
    exact Reads.knowing_then (reads_be .amf hs) (hrest rfl)
  | string =>
    obtain ⟨s, hs, rfl⟩ := body_string h
    exact Reads.knowing_then (reads_be .amf hs) (hrest rfl)
  | _ => exact .inr ⟨.amf, fun _ _ _ => rfl⟩

theorem sound_blob :
    Sound Buffer.peek (readAmfBinaryBlob ty) (fun _ d => Scalar ty d) := by
  have hrest {n len : Nat} (hlen : len < 256 ^ n) (ty : Amf0Type)
      (hty : ∀ s : List UInt8, s.length < 256 ^ n → Scalar ty (Bytes.toBe n s.length ++ s)) :
      Sound Buffer.peek (get >>= fun b => if len > maxCapsBlobBytes ∨ b.available < len
        then throw .amf else readBytes .amf len) (fun _ d => Scalar ty (Bytes.toBe n len ++ d)) := by
    refine sound_guarded fun _ => (sound_bytes .amf len).mono fun _ d hd => ?_
    obtain ⟨-, rfl⟩ := hd
    exact hty d hlen
  cases ty with
  | longString =>
    refine (sound_be .amf 4).bind fun len d hd => ?_
    obtain ⟨hlen, rfl⟩ := hd
    exact hrest hlen .longString fun s hs => .longString hs
  | string =>
    refine (sound_be .amf 2).bind fun len d hd => ?_
    obtain ⟨hlen, rfl⟩ := hd
    exact hrest hlen .string fun s hs => .string hs
  | _ =>
    intro b a ha
    cases ha

theorem knowing_whole (e : ErrorCode) (bits : Nat) : Knowing (wholeU32 e bits) [] := by
  unfold wholeU32
  split
  · exact .inr ⟨_, fails_throw _ _⟩
  · split
    · exact .inl ⟨_, reads_pure _⟩
    · exact .inr ⟨_, fails_throw _ _⟩

theorem sound_whole (e : ErrorCode) (bits : Nat) :
    Sound Buffer.peek (wholeU32 e bits) (fun _ d => d = []) := by
  unfold wholeU32
  split
  · exact sound_throw _
  · split
    · exact sound_pure rfl
    · exact sound_throw _

theorem reads_code (h : 4 ≤ s.length) :
    Reads Buffer.peek (readCode s.length) s (u32OfBe (s.take 4)) := by
  have hfour : (s.take 4).length = 4 := List.length_take_of_le h
  have hrest : Reads Buffer.peek (modify (fun b => if s.length > 4 then b.drain (s.length - 4)
      else b) : ReadM Unit) (s.drop 4) () := by
    intro b tail hb
    refine ⟨rfl, ?_⟩
    rw [Action.on_modify]
    split
    · rw [Buffer.peek_drain, hb, ← List.length_drop, List.drop_left]
    · rw [hb, List.drop_eq_nil_of_le (by omega), List.nil_append]
  have hread : Reads Buffer.peek (readCode s.length) (s.take 4 ++ s.drop 4) _ :=
    (reads_bytes .amf hfour).bind (hrest.map (fun _ => u32OfBe (s.take 4)))
  rwa [List.take_append_drop] at hread

theorem knowing_fourcc_number {depth : Nat} {v : List UInt8} (h : Value depth v) :
    Knowing readFourccNumber v := by
  obtain ⟨ty, e, rfl, hbody⟩ := h
  refine Reads.knowing_then (d := [ty.marker]) (reads_type ty) ?_
  cases ty with
  | number =>
    have hbits : Reads Buffer.peek readNumber e (Bytes.ofBe e) :=
      (reads_bytes .io (body_number hbody)).map Bytes.ofBe
    rw [← List.append_nil e]
    exact Reads.knowing_then hbits (knowing_whole .protocol _)
  | string =>
    obtain ⟨s, hs, rfl⟩ := body_string hbody
    refine Reads.knowing_then (reads_be .amf hs) ?_
    by_cases hlen : s.length < 4
    · refine .inr ⟨.amf, fun b tail _ => ?_⟩
      rw [Action.on_bind, Action.on_get]
      dsimp only
      rw [if_pos (.inl (.inl hlen))]
      rfl
    · exact knowing_guarded (Nat.le_refl _) (.inl ⟨_, reads_code (Nat.not_lt.mp hlen)⟩)
  | _ => exact .inr ⟨.amf, fails_throw _ _⟩

theorem sound_fourcc_number (depth : Nat) :
    Sound Buffer.peek readFourccNumber (fun _ d => Value depth d) := by
  refine sound_type.bind fun ty d hd => ?_
  subst hd
  cases ty with
  | number =>
    refine (sound_be .io 8).bind fun bits d hd => (sound_whole _ _).mono fun _ d' hd' => ?_
    obtain ⟨-, rfl⟩ := hd
    subst hd'
    rw [List.append_nil]
    exact Value.scalar (.number (Bytes.to_be_length 8 bits)) depth
  | string =>
    refine (sound_be .amf 2).bind fun len d hd => ?_
    obtain ⟨hlen, rfl⟩ := hd
    intro b a ha
    rw [Action.on_bind, Action.on_get] at ha ⊢
    dsimp only at ha ⊢
    split at ha
    · cases ha
    · rename_i hguard
      obtain ⟨hrange, hthere⟩ := not_or.mp hguard
      obtain ⟨hfour, -⟩ := not_or.mp hrange
      rw [Buffer.available_eq, Nat.not_lt] at hthere
      have htake : (b.peek.take len).length = len := List.length_take_of_le hthere
      have hcode := reads_code (s := b.peek.take len) (by rw [htake]; exact Nat.not_lt.mp hfour)
      rw [htake] at hcode
      obtain ⟨-, hrest⟩ := hcode b _ (List.take_append_drop len b.peek).symm
      refine ⟨b.peek.take len, ?_, ?_⟩
      · rw [if_neg hguard, hrest, List.take_append_drop]
      · have hvalue := string_value (s := b.peek.take len) (by rw [htake]; exact hlen) depth
        rw [htake] at hvalue
        exact hvalue
  | _ => exact sound_throw _

end Blobs

section Loops

variable {T : Type} {V : List UInt8 → Prop}

theorem on_read_members (member : List UInt8 → FillM T Unit) (keys : Nat) (s : Buffer × T) :
    (readMembers member keys).on s =
      if isObjectEnd s.1 then (reading (readBytes .amf 3) >>= fun _ => pure ()).on s
      else
        match keys with
        | 0 => (.error .amf, s)
        | keys + 1 =>
          (reading (readObjectKey 256) >>= fun key => member key >>= fun _ =>
            readMembers member keys).on s := by
  cases keys with
  | zero =>
    rw [readMembers, Action.on_bind, Action.on_get]
    dsimp only
    split <;> rfl
  | succ keys =>
    rw [readMembers, Action.on_bind, Action.on_get]
    dsimp only
    split <;> rfl

theorem knowing_object_key {key : List UInt8} (h : key.length < 2 ^ 16) :
    Knowing (readObjectKey 256) (Bytes.toBe 2 key.length ++ key) :=
  Reads.knowing_then (reads_be .io h) (knowing_text rfl 256)

theorem sound_object_key : Sound Buffer.peek (readObjectKey 256)
    (fun key d => d = Bytes.toBe 2 key.length ++ key ∧ key.length < 256) := by
  refine (sound_be .io 2).bind fun len d hd => ?_
  obtain ⟨hlen, rfl⟩ := hd
  split
  · exact sound_throw _
  · rename_i hlimit
    refine (sound_bytes .amf len).mono fun s d hd => ?_
    obtain ⟨rfl, hs⟩ := hd
    subst hs
    exact ⟨rfl, Nat.not_le.mp hlimit⟩

/-- Members are read alike whatever follows them. -/
theorem local_members {member : List UInt8 → FillM T Unit} (hv : Marked V)
    (hm : ∀ key t v, V v → Local unreadInput Prod.snd (member key) t v) {n : Nat}
    {d : List UInt8} (h : Members V n d) :
    ∀ keys t, Local unreadInput Prod.snd (readMembers member keys) t d := by
  induction h with
  | nil =>
    intro keys t
    obtain ⟨r, t', hend⟩ := Local.bind (f := fun _ => pure ())
      ((Knowing.reading (.inl ⟨_, reads_bytes .amf (n := 3) (d := objectEndMarker) rfl⟩) t))
      (fun _ t' => (⟨_, _, decided_pure () t'⟩ : Local unreadInput Prod.snd _ t' []))
    refine ⟨r, t', fun s tail hs ht => ?_⟩
    have hisend : isObjectEnd s.1 = true := by
      rw [isObjectEnd, show s.1.peek = _ from hs]
      rfl
    rw [on_read_members, if_pos hisend]
    exact hend s tail hs ht
  | @cons n key d e hk h _ ih =>
    intro keys t
    have hnot (s : Buffer × T) {tail : List UInt8} (hs : unreadInput s =
        Bytes.toBe 2 key.length ++ (key ++ (d ++ e)) ++ tail) : ¬ isObjectEnd s.1 = true := by
      have hne := member_not_end hv (e ++ tail) hk h
      rw [isObjectEnd, show s.1.peek = _ from hs, List.append_assoc, List.append_assoc,
        List.append_assoc]
      exact fun heq => hne (beq_iff_eq.mp heq)
    cases keys with
    | zero =>
      refine ⟨.error .amf, t, fun s tail hs ht => ?_⟩
      rw [on_read_members, if_neg (hnot s hs)]
      exact ⟨rfl, ht, by simp⟩
    | succ keys =>
      have hmember (key' : List UInt8) (t : T) : Local unreadInput Prod.snd
          (member key' >>= fun _ => readMembers member keys) t (d ++ e) :=
        Local.bind (hm key' t d h) (fun _ t' => ih keys t')
      obtain ⟨r, t', hall⟩ := Local.bind ((knowing_object_key hk).reading t) hmember
      rw [List.append_assoc] at hall
      refine ⟨r, t', fun s tail hs ht => ?_⟩
      rw [on_read_members, if_neg (hnot s hs)]
      exact hall s tail hs ht

/-- What is read are members, and no more than allowed. -/
theorem sound_read_members {member : List UInt8 → FillM T Unit}
    (hm : ∀ key, Sound unreadInput (member key) (fun _ d => V d)) (keys : Nat) :
    Sound unreadInput (readMembers member keys) (fun _ d => ∃ n ≤ keys, Members V n d) := by
  have hend (s : Buffer × T) (he : isObjectEnd s.1 = true) :
      unreadInput s = objectEndMarker ++
        unreadInput ((reading (readBytes .amf 3) >>= fun _ => pure ()).on s).2 := by
    have hpeek : s.1.peek = objectEndMarker ++ s.1.peek.drop 3 := by
      rw [isObjectEnd] at he
      nth_rewrite 1 [← List.take_append_drop 3 s.1.peek]
      rw [beq_iff_eq.mp he]
    obtain ⟨-, -, hrest⟩ := (reads_decided (reads_bytes .amf (n := 3) (d := objectEndMarker) rfl)
      s.2).then_ok (f := fun _ => pure ()) (decided_pure () s.2) s (s.1.peek.drop 3) hpeek rfl
    rw [hrest () rfl]
    exact hpeek
  induction keys with
  | zero =>
    intro s a ha
    rw [on_read_members] at ha ⊢
    split at ha
    · rename_i he
      rw [if_pos he]
      exact ⟨_, hend s he, 0, Nat.le_refl 0, .nil⟩
    · cases ha
  | succ keys ih =>
    intro s a ha
    rw [on_read_members] at ha ⊢
    split at ha
    · rename_i he
      rw [if_pos he]
      exact ⟨_, hend s he, 0, Nat.zero_le _, .nil⟩
    · rename_i he
      rw [if_neg he]
      dsimp only at ha ⊢
      have hcons : Sound unreadInput (reading (readObjectKey 256) >>= fun key =>
          member key >>= fun _ => readMembers member keys)
          (fun _ d => ∃ n ≤ keys + 1, Members V n d) := by
        refine (sound_reading sound_object_key).bind fun key d hd => ?_
        obtain ⟨rfl, hk⟩ := hd
        refine (hm key).bind fun _ d hd => ih.mono fun _ e he => ?_
        obtain ⟨n, hn, he⟩ := he
        rw [List.append_assoc]
        exact ⟨n + 1, by omega, .cons (Nat.lt_trans hk (by decide)) hd he⟩
      exact hcons s a ha

end Loops

section Outputs

theorem bufferless_list_add (cc : List UInt8) : Bufferless (fourccListAdd cc) := by
  refine bufferless_get (fun _ _ _ => rfl) fun s => ?_
  split
  · exact bufferless_throw _
  · split
    · exact bufferless_filling _
    · exact bufferless_throw _

theorem bufferless_add_string (cc : List UInt8) : Bufferless (addFourCcString cc) := by
  unfold addFourCcString
  split
  · exact bufferless_list_add cc
  · exact bufferless_pure _

theorem bufferless_list_entries (count : Nat) :
    ∀ data, Bufferless (fourccListEntries count data) := by
  induction count with
  | zero => exact fun _ => bufferless_pure _
  | succ count ih =>
    intro data
    unfold fourccListEntries
    dsimp only
    split
    · exact bufferless_pure _
    · split
      · exact bufferless_pure _
      · exact (bufferless_list_add _).bind fun _ => ih _

theorem bufferless_list_parse : Bufferless (fourccListParse data) := by
  unfold fourccListParse
  split
  · exact bufferless_throw _
  · exact (bufferless_filling _).bind fun _ => bufferless_list_entries _ _

theorem bufferless_map_add (mask : UInt32) :
    Bufferless (addVideoMapEntry key mask) := by
  refine bufferless_get (fun _ _ _ => rfl) fun s => ?_
  split
  · exact bufferless_throw _
  · split
    · exact bufferless_filling _
    · exact bufferless_throw _

theorem bufferless_map_entries (legacyKeyOnly : Bool) (count : Nat) :
    ∀ data, Bufferless (videoFourccInfoMapEntries legacyKeyOnly count data) := by
  induction count with
  | zero => exact fun _ => bufferless_pure _
  | succ count ih =>
    intro data
    unfold videoFourccInfoMapEntries
    dsimp only
    split
    · exact bufferless_throw _
    · split
      · exact bufferless_throw _
      · split
        · exact bufferless_throw _
        · split
          · exact (bufferless_filling _).bind fun _ => ih _
          · split
            · exact bufferless_throw _
            · exact (bufferless_filling _).bind fun _ => ih _

theorem bufferless_map_parse : Bufferless (videoFourccInfoMapParse data) := by
  unfold videoFourccInfoMapParse
  split
  · exact bufferless_throw _
  · refine (bufferless_filling _).bind fun _ => ?_
    dsimp only
    split
    · exact bufferless_map_entries _ _ _
    · split
      · exact bufferless_map_entries _ _ _
      · exact bufferless_throw _

theorem bufferless_caps_parse : Bufferless (capsExitParse data) := by
  unfold capsExitParse
  split
  · exact bufferless_throw _
  · exact bufferless_filling _

theorem bufferless_reconnect_parse : Bufferless (reconnectParse data) := by
  unfold reconnectParse
  split
  · exact bufferless_throw _
  · exact bufferless_filling _

end Outputs

section Values

variable {T : Type} {add : List UInt8 → FillM T Unit} {depth : Nat} {v : List UInt8}

theorem local_names (hadd : ∀ cc, Bufferless (add cc)) {n : Nat} {d : List UInt8}
    (h : Items (Value depth) n d) : ∀ t, Local unreadInput Prod.snd (readNames add n) t d := by
  induction h with
  | nil => exact fun t => ⟨_, _, decided_pure () t⟩
  | @cons n d e hv _ ih =>
    intro t
    refine Local.bind ((knowing_string 8 hv).reading t) fun cc t' => ?_
    exact Local.bind ((hadd cc).local_nil t') fun _ t'' => ih t''

theorem sound_names (hadd : ∀ cc, Bufferless (add cc)) (depth n : Nat) :
    Sound unreadInput (readNames add n) (fun _ d => Items (Value depth) n d) := by
  induction n with
  | zero => exact sound_pure .nil
  | succ n ih =>
    refine (sound_reading (sound_string 8)).bind fun cc d hd => ?_
    obtain ⟨rfl, -, hlen⟩ := hd
    refine (hadd cc).sound.bind fun _ d hd => ih.mono fun _ e he => ?_
    subst hd
    exact .cons (string_value hlen depth) he

theorem local_name_array (hadd : ∀ cc, Bufferless (add cc)) {e : List UInt8}
    (h : Body depth .strictArray e) (t : T) :
    Local unreadInput Prod.snd (readNameArray add) t e := by
  obtain ⟨inner, n, d, hn, rfl, hitems⟩ := body_strict_array h
  have hcount : n < 256 ^ 4 := Nat.lt_of_le_of_lt hn (by decide)
  refine (reads_decided (reads_be .amf hcount) t).bind_local ?_
  by_cases hmany : n > maxFourccs
  · rw [if_pos hmany]
    exact ⟨_, _, decided_throw _ _ _⟩
  · rw [if_neg hmany]
    exact local_names hadd hitems t

theorem sound_name_array (hadd : ∀ cc, Bufferless (add cc)) (depth : Nat) :
    Sound unreadInput (readNameArray add) (fun _ d => Body (depth + 1) .strictArray d) := by
  refine (sound_reading (sound_be .amf 4)).bind fun n d hd => ?_
  obtain ⟨-, rfl⟩ := hd
  split
  · exact sound_throw _
  · rename_i hmany
    have hn : n ≤ 256 := Nat.le_trans (Nat.not_lt.mp hmany) (by decide)
    exact (sound_names hadd depth n).mono fun _ d h => .inr (.strictArray hn h)

/-- A long string, of which `parse` makes something. -/
theorem local_blob {parse : List UInt8 → FillM T Unit} (hparse : ∀ data, Bufferless (parse data))
    {ty : Amf0Type} {e : List UInt8} (h : Body depth ty e) (t : T) :
    Local unreadInput Prod.snd (reading (readAmfBinaryBlob ty) >>= parse) t e := by
  rw [← List.append_nil e]
  exact Local.bind ((knowing_blob h).reading t) fun data t' => (hparse data).local_nil t'

theorem sound_blob_value {parse : List UInt8 → FillM T Unit}
    (hparse : ∀ data, Bufferless (parse data)) (ty : Amf0Type) (depth : Nat) :
    Sound unreadInput (reading (readAmfBinaryBlob ty) >>= parse) (fun _ d => Body depth ty d) := by
  refine (sound_reading (sound_blob ty)).bind fun data d hd => ?_
  refine (hparse data).sound.mono fun _ e he => ?_
  subst he
  rw [List.append_nil]
  exact Body.scalar hd depth

theorem local_four_cc_list (h : Value depth v) (t : FourCcList) :
    Local unreadInput Prod.snd readFourCcListAmf t v := by
  obtain ⟨ty, e, rfl, hbody⟩ := h
  refine (filling_decided _ t).bind_local (d := []) ?_
  refine (reads_decided (reads_type ty) []).bind_local (d := [ty.marker]) ?_
  cases ty with
  | strictArray => exact local_name_array bufferless_add_string hbody []
  | longString => exact local_blob bufferless_list_parse hbody []
  | _ => exact ⟨_, _, decided_throw _ _ _⟩

theorem sound_four_cc_list (depth : Nat) :
    Sound unreadInput readFourCcListAmf (fun _ d => Value (depth + 1) d) := by
  refine (bufferless_filling _).sound.bind fun _ d hd => ?_
  subst hd
  refine (sound_reading sound_type).bind fun ty d hd => ?_
  subst hd
  cases ty with
  | strictArray =>
    exact (sound_name_array bufferless_add_string depth).mono fun _ e he => ⟨_, e, rfl, he⟩
  | longString =>
    exact (sound_blob_value bufferless_list_parse .longString (depth + 1)).mono
      fun _ e he => ⟨_, e, rfl, he⟩
  | _ => exact sound_throw _

theorem local_map_member (t : VideoFourCcInfoMap) (h : Value depth v) :
    Local unreadInput Prod.snd (readVideoMapMember key) t v := by
  obtain ⟨ty, e, rfl, hbody⟩ := h
  refine (reads_decided (reads_type ty) t).bind_local (d := [ty.marker]) ?_
  by_cases hty : ty = .number
  · subst hty
    rw [if_neg (by simp), ← List.append_nil e]
    have hbits : Reads Buffer.peek readNumber e (Bytes.ofBe e) :=
      (reads_bytes .io (body_number hbody)).map Bytes.ofBe
    refine (reads_decided hbits t).bind_local ?_
    split
    · exact ⟨_, _, decided_throw _ _ _⟩
    · exact (bufferless_map_add _ _).local_nil t
  · rw [if_pos hty]
    exact ⟨_, _, decided_throw _ _ _⟩

theorem sound_map_member (depth : Nat) (key : List UInt8) :
    Sound unreadInput (readVideoMapMember key) (fun _ d => Value depth d) := by
  refine (sound_reading sound_type).bind fun ty d hd => ?_
  subst hd
  split
  · exact sound_throw _
  · rename_i hty
    obtain rfl := not_not.mp hty
    refine (sound_reading (sound_be .io 8)).bind fun bits d hd => ?_
    obtain ⟨-, rfl⟩ := hd
    have hvalue : Value depth (Amf0Type.number.marker :: Bytes.toBe 8 bits) :=
      Value.scalar (.number (Bytes.to_be_length 8 bits)) depth
    split
    · exact sound_throw _
    · refine (bufferless_map_add _ _).sound.mono fun _ e he => ?_
      subst he
      rw [List.append_nil]
      exact hvalue

theorem local_video_map (h : Value depth v) (t : VideoFourCcInfoMap) :
    Local unreadInput Prod.snd readVideoFourccInfoMapAmf t v := by
  obtain ⟨ty, e, rfl, hbody⟩ := h
  refine (filling_decided _ t).bind_local (d := []) ?_
  refine (reads_decided (reads_type ty) []).bind_local (d := [ty.marker]) ?_
  cases ty with
  | strictArray => exact local_name_array (fun _ => bufferless_map_add _ _) hbody []
  | longString => exact local_blob bufferless_map_parse hbody []
  | object =>
    obtain ⟨inner, n, -, -, hmembers⟩ := body_object hbody
    exact local_members (value_marked inner) (fun key t _ hv => local_map_member key t hv)
      hmembers _ _
  | ecmaArray =>
    obtain ⟨inner, n, count, d, -, hc, rfl, hmembers⟩ := body_ecma_array hbody
    have hcount : Reads Buffer.peek (readBe .amf 4) count (Bytes.ofBe count) :=
      (reads_bytes .amf hc).map Bytes.ofBe
    refine (reads_decided hcount []).bind_local ?_
    exact local_members (value_marked inner) (fun key t _ hv => local_map_member key t hv)
      hmembers _ _
  | _ => exact ⟨_, _, decided_throw _ _ _⟩

theorem sound_video_map (depth : Nat) :
    Sound unreadInput readVideoFourccInfoMapAmf (fun _ d => Value (depth + 1) d) := by
  refine (bufferless_filling _).sound.bind fun _ d hd => ?_
  subst hd
  refine (sound_reading sound_type).bind fun ty d hd => ?_
  subst hd
  have hmembers := sound_read_members (sound_map_member depth) maxObjectKeys
  cases ty with
  | strictArray =>
    exact (sound_name_array (fun _ => bufferless_map_add _ _) depth).mono
      fun _ e he => ⟨_, e, rfl, he⟩
  | longString =>
    exact (sound_blob_value bufferless_map_parse .longString (depth + 1)).mono
      fun _ e he => ⟨_, e, rfl, he⟩
  | object =>
    exact hmembers.mono fun _ e ⟨n, hn, he⟩ => Value.container (.object hn he)
  | ecmaArray =>
    refine (sound_reading (sound_be .amf 4)).bind fun count d hd => ?_
    obtain ⟨-, rfl⟩ := hd
    refine hmembers.mono fun _ e ⟨n, hn, he⟩ => ?_
    have harray : Container (Value depth) .ecmaArray (Bytes.toBe 4 count ++ e) :=
      .ecmaArray (Bytes.to_be_length 4 count) hn he
    exact Value.container harray
  | _ => exact sound_throw _

theorem reads_skip (h : Value maxSkipDepth v) : Reads Buffer.peek skipValue v () :=
  reads_value (reads_body maxSkipDepth) v h

theorem sound_skip : Sound Buffer.peek skipValue (fun _ v => Value maxSkipDepth v) :=
  sound_value (sound_body maxSkipDepth)

theorem local_caps_member (t : CapsEx) (h : Value maxSkipDepth v) :
    Local unreadInput Prod.snd (readCapsExMember key) t v := by
  have hcodec (put : UInt32 → CapsEx → CapsEx) : Local unreadInput Prod.snd
      (reading readFourccNumber >>= fun codec => filling (put codec)) t v := by
    rw [← List.append_nil v]
    exact Local.bind ((knowing_fourcc_number h).reading t) fun codec t' =>
      ⟨_, _, filling_decided (put codec) t'⟩
  unfold readCapsExMember
  split
  · exact hcodec _
  · split
    · exact hcodec _
    · exact ⟨_, _, reads_decided (reads_skip h) t⟩

theorem sound_caps_member :
    Sound unreadInput (readCapsExMember key) (fun _ d => Value maxSkipDepth d) := by
  have hcodec (put : UInt32 → CapsEx → CapsEx) : Sound unreadInput
      (reading readFourccNumber >>= fun codec => filling (put codec))
      (fun _ d => Value maxSkipDepth d) := by
    refine (sound_reading (sound_fourcc_number maxSkipDepth)).bind fun codec d hd => ?_
    refine (bufferless_filling _).sound.mono fun _ e he => ?_
    subst he
    rwa [List.append_nil]
  unfold readCapsExMember
  split
  · exact hcodec _
  · split
    · exact hcodec _
    · exact sound_reading sound_skip

/-- The reader stops at the end of the value. -/
theorem local_caps_mask (h : Value (maxSkipDepth + 1) v) (t : CapsEx) :
    Local unreadInput Prod.snd readCapsExMask t v := by
  obtain ⟨ty, e, rfl, hbody⟩ := h
  refine (reads_decided (reads_type ty) t).bind_local (d := [ty.marker]) ?_
  have hdefault (t : CapsEx) : Local unreadInput Prod.snd
      (pure capsExMaskServerDefault : FillM CapsEx UInt32) t [] := ⟨_, _, decided_pure _ t⟩
  cases ty with
  | number =>
    have hbits : Reads Buffer.peek readNumber e (Bytes.ofBe e) :=
      (reads_bytes .io (body_number hbody)).map Bytes.ofBe
    rw [← List.append_nil e]
    exact (reads_decided hbits t).bind_local ((knowing_whole .amf _).reading t)
  | longString =>
    rw [← List.append_nil e]
    refine Local.bind ((knowing_blob hbody).reading t) fun data t' => ?_
    exact Local.bind (d := []) ((bufferless_caps_parse data).local_nil t') fun _ t'' => hdefault t''
  | object =>
    obtain ⟨inner, n, hinner, -, hmembers⟩ := body_object hbody
    obtain rfl : inner = maxSkipDepth := Nat.succ.inj hinner
    refine (filling_decided _ t).bind_local (d := []) ?_
    have hloop := local_members (value_marked maxSkipDepth)
      (fun key t _ hv => local_caps_member key t hv) hmembers maxObjectKeys
    rw [← List.append_nil e]
    exact Local.bind (hloop _) fun _ t' => hdefault t'
  | _ => exact ⟨_, _, decided_throw _ _ _⟩

theorem local_caps_ex (h : Value (maxSkipDepth + 1) v) (t : CapsEx) :
    Local unreadInput Prod.snd readCapsExAmf t v := by
  rw [← List.append_nil v]
  exact Local.bind (local_caps_mask h t) fun mask t' => ⟨_, _, filling_decided _ t'⟩

theorem sound_caps_mask :
    Sound unreadInput readCapsExMask (fun _ d => Value (maxSkipDepth + 1) d) := by
  refine (sound_reading sound_type).bind fun ty d hd => ?_
  subst hd
  cases ty with
  | number =>
    refine (sound_reading (sound_be .io 8)).bind fun bits d hd => ?_
    obtain ⟨-, rfl⟩ := hd
    refine (sound_reading (sound_whole .amf bits)).mono fun mask d hd => ?_
    subst hd
    rw [List.append_nil]
    exact Value.scalar (.number (Bytes.to_be_length 8 bits)) _
  | longString =>
    refine (sound_reading (sound_blob .longString)).bind fun data d hd => ?_
    refine (bufferless_caps_parse data).sound.bind fun _ d' hd' => sound_pure ?_
    subst hd'
    rw [List.append_nil, List.append_nil]
    exact Value.scalar hd _
  | object =>
    refine (bufferless_filling _).sound.bind fun _ d hd => ?_
    subst hd
    refine (sound_read_members sound_caps_member maxObjectKeys).bind fun _ d hd => sound_pure ?_
    obtain ⟨n, hn, hmembers⟩ := hd
    rw [List.append_nil]
    exact Value.container (.object hn hmembers)
  | _ => exact sound_throw _

theorem sound_caps_ex :
    Sound unreadInput readCapsExAmf (fun _ d => Value (maxSkipDepth + 1) d) := by
  refine sound_caps_mask.bind fun mask d hd => ?_
  refine (bufferless_filling _).sound.mono fun _ e he => ?_
  subst he
  rwa [List.append_nil]

theorem local_reconnect (h : Value depth v) (t : Reconnect) :
    Local unreadInput Prod.snd readReconnectAmf t v := by
  obtain ⟨ty, e, rfl, hbody⟩ := h
  refine (reads_decided (reads_type ty) t).bind_local (d := [ty.marker]) ?_
  exact local_blob bufferless_reconnect_parse hbody t

theorem sound_reconnect (depth : Nat) :
    Sound unreadInput readReconnectAmf (fun _ d => Value depth d) := by
  refine (sound_reading sound_type).bind fun ty d hd => ?_
  subst hd
  exact (sound_blob_value bufferless_reconnect_parse ty depth).mono fun _ e he => ⟨ty, e, rfl, he⟩

end Values

section Fields

variable {v : List UInt8}

theorem local_noted {U : Type} {part : ConnectOutput → U} {put : U → ConnectOutput → ConnectOutput}
    {m : FillM U Unit} {t : ConnectOutput} (h : Local unreadInput Prod.snd m (part t) v)
    (note : ConnectOutput → ConnectOutput) :
    Local unreadInput Prod.snd (into part put m >>= fun _ => filling note) t v := by
  rw [← List.append_nil v]
  exact Local.bind (local_into h) fun _ t' => ⟨_, _, filling_decided note t'⟩

theorem sound_noted {U : Type} {part : ConnectOutput → U} {put : U → ConnectOutput → ConnectOutput}
    {m : FillM U Unit} {P : List UInt8 → Prop} (h : Sound unreadInput m (fun _ d => P d))
    (note : ConnectOutput → ConnectOutput) :
    Sound unreadInput (into part put m >>= fun _ => filling note) (fun _ d => P d) := by
  refine (sound_into h).bind fun _ d hd => (bufferless_filling _).sound.mono fun _ e he => ?_
  subst he
  rwa [List.append_nil]

/-- What the reader of a capability makes of a value does not depend on what follows it. -/
theorem local_cap_field (field : CapField) (h : Value (maxSkipDepth + 1) v) (t : ConnectOutput) :
    Local unreadInput Prod.snd field.read t v := by
  cases field with
  | fourCcList => exact local_noted (local_four_cc_list h _) _
  | capsEx => exact local_noted (local_caps_ex h _) _
  | videoFourCcInfoMap => exact local_noted (local_video_map h _) _
  | reconnect => exact local_noted (local_reconnect h _) _

theorem sound_cap_field (field : CapField) :
    Sound unreadInput field.read (fun _ d => Value (maxSkipDepth + 1) d) := by
  cases field with
  | fourCcList => exact sound_noted (sound_four_cc_list maxSkipDepth) _
  | capsEx => exact sound_noted sound_caps_ex _
  | videoFourCcInfoMap => exact sound_noted (sound_video_map maxSkipDepth) _
  | reconnect => exact sound_noted (sound_reconnect _) _

theorem reads_number_value {e : List UInt8} (h : e.length = 8) :
    Reads Buffer.peek readNumberValue (Amf0Type.number.marker :: e) (Bytes.ofBe e) := by
  refine (reads_type .number).bind (d := [Amf0Type.number.marker]) ?_
  rw [if_neg (by simp)]
  exact (reads_bytes .io h).map Bytes.ofBe

theorem sound_number_value : Sound Buffer.peek readNumberValue
    (fun bits d => d = Amf0Type.number.marker :: Bytes.toBe 8 bits ∧ bits < 256 ^ 8) := by
  refine sound_type.bind fun ty d hd => ?_
  subst hd
  split
  · exact sound_throw _
  · rename_i hty
    obtain rfl := not_not.mp hty
    exact (sound_be .io 8).mono fun bits d hd => ⟨by rw [hd.2]; rfl, hd.1⟩

variable {limit : Nat} {put : List UInt8 → ConnectInfo → ConnectInfo}

theorem local_checked (h : s.length < 2 ^ 16) (t : ConnectOutput) :
    Local unreadInput Prod.snd (readStringChecked limit put) t
      (Amf0Type.string.marker :: (Bytes.toBe 2 s.length ++ s)) := by
  refine (reads_decided (reads_bytes .amf (n := 1) (d := [Amf0Type.string.marker]) rfl)
    t).bind_local ?_
  rw [if_neg (by simp)]
  refine (reads_decided (reads_be .amf h) t).bind_local ?_
  have hthere (b : Buffer) {tail : List UInt8} (hb : b.peek = s ++ tail) :
      ¬ b.available < s.length := by
    rw [Buffer.available_eq, hb, List.length_append]
    omega
  by_cases hlimit : s.length ≥ limit
  · refine ⟨.error .amf, t, fun x tail hx ht => ?_⟩
    rw [Action.on_bind, Action.on_get]
    dsimp only
    rw [if_neg (hthere x.1 hx), if_pos hlimit]
    exact ⟨rfl, ht, fun _ hr => nomatch hr⟩
  · have hrest : Local unreadInput Prod.snd (reading (readBytes .amf s.length) >>= fun text =>
        filling (setInfo (put (text.takeWhile (fun b => b != 0)))) >>= fun _ =>
          if text.contains 0 then throw .amf else pure ()) t (s ++ []) := by
      refine (reads_decided (reads_bytes .amf rfl) t).bind_local ?_
      refine (filling_decided _ t).bind_local (d := []) ?_
      split
      · exact ⟨_, _, decided_throw _ _ _⟩
      · exact ⟨_, _, decided_pure _ _⟩
    rw [List.append_nil] at hrest
    obtain ⟨r, t', hrest⟩ := hrest
    refine ⟨r, t', fun x tail hx ht => ?_⟩
    rw [Action.on_bind, Action.on_get]
    dsimp only
    rw [if_neg (hthere x.1 hx), if_neg hlimit]
    exact hrest x tail hx ht

theorem sound_checked : Sound unreadInput (readStringChecked limit put)
    (fun _ d => Value maxSkipDepth d) := by
  refine (sound_reading (sound_bytes .amf 1)).bind fun ty d hd => ?_
  obtain ⟨rfl, -⟩ := hd
  split
  · exact sound_throw _
  · rename_i hty
    obtain rfl := not_not.mp hty
    refine (sound_reading (sound_be .amf 2)).bind fun slen d hd => ?_
    obtain ⟨hslen, rfl⟩ := hd
    intro x a ha
    rw [Action.on_bind, Action.on_get] at ha ⊢
    dsimp only at ha ⊢
    split at ha
    · cases ha
    · rename_i hthere
      rw [if_neg hthere]
      split at ha
      · cases ha
      · rename_i hlimit
        rw [if_neg hlimit]
        have hrest : Sound unreadInput (reading (readBytes .amf slen) >>= fun text =>
            filling (setInfo (put (text.takeWhile (fun b => b != 0)))) >>= fun _ =>
              if text.contains 0 then throw .amf else pure ())
            (fun _ d => Value maxSkipDepth
              (Amf0Type.string.marker :: (Bytes.toBe 2 slen ++ d))) := by
          refine (sound_reading (sound_bytes .amf slen)).bind fun text d hd => ?_
          obtain ⟨rfl, rfl⟩ := hd
          refine (bufferless_filling _).sound.bind fun _ d hd => ?_
          subst hd
          split
          · exact sound_throw _
          · refine sound_pure ?_
            rw [List.append_nil, List.append_nil]
            exact string_value hslen _
        exact hrest x a ha

theorem on_peek_type {b : Buffer} {rest : List UInt8}
    (hb : b.peek = ty.marker :: rest) : (peeking readType).on b = (.ok ty, b) := by
  obtain ⟨hok, -⟩ := reads_type ty b rest hb
  rw [on_peeking]
  generalize readType.on b = r at hok
  obtain ⟨r, b'⟩ := r
  cases hok
  rfl

theorem on_plain_field {s : Buffer × ConnectOutput}
    {rest : List UInt8} (hs : s.1.peek = ty.marker :: rest) :
    (readConnectPlainField key).on s = (readPlainValue key ty).on s := by
  rw [readConnectPlainField, Action.on_bind, on_reading, on_peek_type ty hs]

theorem local_plain_value {e : List UInt8}
    (h : Body maxSkipDepth ty e) (t : ConnectOutput) :
    Local unreadInput Prod.snd (readPlainValue key ty) t (ty.marker :: e) := by
  have hskip : Local unreadInput Prod.snd (reading (T := ConnectOutput) skipValue) t
      (ty.marker :: e) := ⟨_, _, reads_decided (reads_skip ⟨ty, e, rfl, h⟩) t⟩
  cases ty with
  | string =>
    obtain ⟨s, hs, rfl⟩ := body_string h
    dsimp only [readPlainValue, readPlainText]
    repeat' split
    all_goals first | exact local_checked hs t | exact hskip
  | number =>
    rw [← List.append_nil (Amf0Type.number.marker :: e)]
    exact (reads_decided (reads_number_value (body_number h)) t).bind_local
      ⟨_, _, filling_decided _ t⟩
  | _ => exact hskip

theorem sound_plain_value :
    Sound unreadInput (readPlainValue key ty) (fun _ d => Value maxSkipDepth d) := by
  have hskip : Sound unreadInput (reading (T := ConnectOutput) skipValue)
      (fun _ d => Value maxSkipDepth d) := sound_reading sound_skip
  cases ty with
  | string =>
    dsimp only [readPlainValue, readPlainText]
    repeat' split
    all_goals first | exact sound_checked | exact hskip
  | number =>
    refine (sound_reading sound_number_value).bind fun bits d hd => ?_
    obtain ⟨rfl, -⟩ := hd
    refine (bufferless_filling _).sound.mono fun _ e he => ?_
    subst he
    rw [List.append_nil]
    exact Value.scalar (.number (Bytes.to_be_length 8 bits)) _
  | _ => exact hskip

theorem local_plain_field (h : Value maxSkipDepth v) (t : ConnectOutput) :
    Local unreadInput Prod.snd (readConnectPlainField key) t v := by
  obtain ⟨ty, e, rfl, hbody⟩ := h
  obtain ⟨r, t', hvalue⟩ := local_plain_value key ty hbody t
  refine ⟨r, t', fun s tail hs ht => ?_⟩
  rw [on_plain_field key ty (show s.1.peek = ty.marker :: (e ++ tail) from hs)]
  exact hvalue s tail hs ht

theorem sound_plain_field :
    Sound unreadInput (readConnectPlainField key) (fun _ d => Value maxSkipDepth d) := by
  intro s a ha
  obtain ⟨ty, hty, -, -⟩ := bind_ok ha
  rw [on_reading, on_peeking] at hty
  have htype : (readType.on s.1).1 = .ok ty := by
    generalize readType.on s.1 = r at hty
    obtain ⟨r, b⟩ := r
    cases r with
    | error e => cases hty
    | ok ty' => exact hty
  obtain ⟨d, hd, rfl⟩ := sound_type s.1 ty htype
  rw [on_plain_field key ty hd] at ha ⊢
  exact sound_plain_value key ty s a ha

end Fields

end LibRtmp.Proofs
