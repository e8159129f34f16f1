import LibRtmp.Proofs.ReadChunk

namespace LibRtmp.Wire

/-- The message header of a chunk as a peer writes it, one constructor for each format. -/
inductive Header where
  | full (ts length : Nat) (typeId : UInt8) (streamId : UInt32)
  | sameStream (ts length : Nat) (typeId : UInt8)
  | sameLength (ts : Nat)
  | same

namespace Header

def fmt : Header → Nat
  | .full .. => 0
  | .sameStream .. => 1
  | .sameLength _ => 2
  | .same => 3

def size : Header → Nat
  | .full .. => 11
  | .sameStream .. => 7
  | .sameLength _ => 3
  | .same => 0

def ts : Header → Nat
  | .full ts _ _ _ => ts
  | .sameStream ts _ _ => ts
  | .sameLength ts => ts
  | .same => 0

def length : Header → Nat
  | .full _ length _ _ => length
  | .sameStream _ length _ => length
  | .sameLength _ => 0
  | .same => 0

def bytes : Header → List UInt8
  | .full ts length typeId streamId =>
    Bytes.toBe 3 ts ++ (Bytes.toBe 3 length ++ (typeId :: Bytes.toLe 4 streamId.toNat))
  | .sameStream ts length typeId => Bytes.toBe 3 ts ++ (Bytes.toBe 3 length ++ [typeId])
  | .sameLength ts => Bytes.toBe 3 ts
  | .same => []

def fields : Header → MessageFields
  | .full ts length typeId streamId => ⟨ts, length, typeId, streamId⟩
  | .sameStream ts length typeId => ⟨ts, length, typeId, 0⟩
  | .sameLength ts => { timestamp := ts }
  | .same => {}

def Fits (hd : Header) : Prop := hd.ts < 2 ^ 24 ∧ hd.length < 2 ^ 24

end Header

/-- The forms a basic header may take; ids from 64 to 319 have two. -/
inductive BasicForm (fmt csid : Nat) : List UInt8 → Prop where
  | one (h : 2 ≤ csid ∧ csid < 64) : BasicForm fmt csid [UInt8.ofNat (fmt * 64 + csid)]
  | two (h : 64 ≤ csid ∧ csid < 320) :
      BasicForm fmt csid [UInt8.ofNat (fmt * 64), UInt8.ofNat (csid - 64)]
  | three (h : 64 ≤ csid ∧ csid ≤ 65599) :
      BasicForm fmt csid (UInt8.ofNat (fmt * 64 + 1) :: Bytes.toLe 2 (csid - 64))

structure Chunk where
  csid : Nat
  basic : List UInt8
  header : Header
  ext : Option UInt32
  data : List UInt8

namespace Chunk

def extBytes : Option UInt32 → List UInt8
  | some v => Bytes.toBe 4 v.toNat
  | none => []

def bytes (w : Chunk) : List UInt8 := w.basic ++ (w.header.bytes ++ (extBytes w.ext ++ w.data))

/-- The peer's own rules: a basic header for the format, fields within 24 bits. -/
structure WellFormed (w : Chunk) : Prop where
  basic : BasicForm w.header.fmt w.csid w.basic
  fits : w.header.Fits

def head (w : Chunk) : ChunkHead where
  fmt := w.header.fmt
  csid := w.csid
  headerSize := w.basic.length
  msgFieldSize := w.header.size
  extTs := w.ext.isSome
  toRead := w.data.length

def time (w : Chunk) : UInt32 := w.ext.getD (UInt32.ofNat w.header.ts)

end Chunk

theorem Header.bytes_length (hd : Header) : hd.bytes.length = hd.size := by
  cases hd <;> simp [bytes, size]

theorem Header.field_size (hd : Header) : msgFieldSize hd.fmt = some hd.size := by
  cases hd <;> rfl

theorem Header.fmt_le (hd : Header) : hd.fmt ≤ 3 := by
  cases hd <;> simp [fmt]

theorem Chunk.ext_length (ext : Option UInt32) :
    (Chunk.extBytes ext).length = extTsSize ext.isSome := by
  cases ext <;> simp [Chunk.extBytes, extTsSize]

/-- Each form of a basic header is read as its id. -/
theorem read_basic_form {fmt csid : Nat} {b : List UInt8} (hf : fmt ≤ 3)
    (hb : BasicForm fmt csid b) (t : List UInt8) :
    readBasicHeader (b ++ t) = some (fmt, csid, b.length) := by
  cases hb with
  | one h =>
    have hn : (UInt8.ofNat (fmt * 64 + csid)).toNat = fmt * 64 + csid := by
      rw [UInt8.toNat_ofNat']
      omega
    have hlow : (fmt * 64 + csid) % 64 = csid := by omega
    have hdiv : (fmt * 64 + csid) / 64 = fmt := by omega
    simp only [readBasicHeader, List.cons_append, hn, hlow, hdiv]
    obtain ⟨n, rfl⟩ := Nat.exists_eq_add_of_le' h.1
    rfl
  | two h =>
    have hn : (UInt8.ofNat (fmt * 64)).toNat = fmt * 64 := by
      rw [UInt8.toNat_ofNat']
      omega
    have hc : (UInt8.ofNat (csid - 64)).toNat = csid - 64 := by
      rw [UInt8.toNat_ofNat']
      omega
    have hlow : fmt * 64 % 64 = 0 := by omega
    have hdiv : fmt * 64 / 64 = fmt := by omega
    simp only [readBasicHeader, List.cons_append, hn, hlow, hdiv, hc, Nat.sub_add_cancel h.1]
    rfl
  | three h =>
    have hn : (UInt8.ofNat (fmt * 64 + 1)).toNat = fmt * 64 + 1 := by
      rw [UInt8.toNat_ofNat']
      omega
    have hlow : (fmt * 64 + 1) % 64 = 1 := by omega
    have hdiv : (fmt * 64 + 1) / 64 = fmt := by omega
    have hlen := Bytes.to_le_length 2 (csid - 64)
    have hval : Bytes.ofLe (Bytes.toLe 2 (csid - 64)) = csid - 64 :=
      Bytes.of_le_to_le_lt (by omega)
    generalize Bytes.toLe 2 (csid - 64) = lo at hlen hval ⊢
    rcases lo with _ | ⟨b, _ | ⟨c, _ | ⟨_, _⟩⟩⟩
    · cases hlen
    · cases hlen
    · simp only [readBasicHeader, List.cons_append, hn, hlow, hdiv, hval, Nat.sub_add_cancel h.1]
      rfl
    · cases hlen

theorem Header.Fits.ts_back {hd : Header} (hf : hd.Fits) :
    Bytes.ofBe (Bytes.toBe 3 hd.ts) = hd.ts := Bytes.of_be_to_be_lt hf.1

theorem Header.Fits.length_back {hd : Header} (hf : hd.Fits) :
    Bytes.ofBe (Bytes.toBe 3 hd.length) = hd.length := Bytes.of_be_to_be_lt hf.2

theorem Header.read_ts (hd : Header) (hf : hd.Fits) (t : List UInt8) :
    (if hd.fmt ≤ 2 then field24 (hd.bytes ++ t) 0 else 0) = hd.ts := by
  have hts := hf.ts_back
  cases hd with
  | full _ _ _ _ => simpa [bytes, fmt, field24, ts] using hts
  | sameStream _ _ _ => simpa [bytes, fmt, field24, ts] using hts
  | sameLength _ => simpa [bytes, fmt, field24, ts] using hts
  | same => rfl

theorem Header.read_length (hd : Header) (hf : hd.Fits) (t : List UInt8) :
    (if hd.fmt ≤ 1 then field24 (hd.bytes ++ t) 3 else 0) = hd.length := by
  have hlen := hf.length_back
  cases hd with
  | full _ _ _ _ => simpa [bytes, fmt, field24, length] using hlen
  | sameStream _ _ _ => simpa [bytes, fmt, field24, length] using hlen
  | sameLength _ => rfl
  | same => rfl

theorem Header.read_fields (hd : Header) (hf : hd.Fits) :
    messageFields hd.fmt hd.bytes = hd.fields := by
  have hts := hf.ts_back
  have hlen := hf.length_back
  cases hd with
  | full _ _ _ sid =>
    have hsid : Bytes.ofLe (Bytes.toLe 4 sid.toNat) = sid.toNat :=
      Bytes.of_le_to_le_lt sid.toNat_lt
    simp only [ts, length] at hts hlen
    have htake : (Bytes.toLe 4 sid.toNat).take 4 = Bytes.toLe 4 sid.toNat :=
      List.take_of_length_le (by simp)
    have hdrop : ∀ n k, 3 ≤ k → (Bytes.toBe 3 n).drop k = [] := by
      intro n k hk
      exact List.drop_eq_nil_of_le (by simpa using hk)
    simp [messageFields, fmt, bytes, fields, field24, hts, hlen, hsid, htake, List.drop_append,
      hdrop]
  | sameStream _ _ _ =>
    simp only [ts, length] at hts hlen
    simp [messageFields, fmt, bytes, fields, field24, hts, hlen]
  | sameLength _ =>
    simp only [ts] at hts
    simp [messageFields, fmt, bytes, fields, field24, hts, List.take_of_length_le]
  | same => rfl

namespace Chunk

variable {w : Chunk} (t : List UInt8)

theorem bytes_append : w.bytes ++ t =
    w.basic ++ (w.header.bytes ++ (extBytes w.ext ++ (w.data ++ t))) := by
  simp [bytes]

theorem drop_basic : (w.bytes ++ t).drop w.basic.length =
    w.header.bytes ++ (extBytes w.ext ++ (w.data ++ t)) := by
  rw [bytes_append, List.drop_left]

theorem drop_header : (w.bytes ++ t).drop (w.basic.length + w.header.size) =
    extBytes w.ext ++ (w.data ++ t) := by
  rw [← List.drop_drop, drop_basic, ← Header.bytes_length, List.drop_left]

theorem drop_total : (w.bytes ++ t).drop w.head.totalHeader = w.data ++ t := by
  have ht : w.head.totalHeader = w.basic.length + w.header.size + (extBytes w.ext).length := by
    rw [ext_length]
    rfl
  rw [ht, ← List.drop_drop, drop_header, List.drop_left]

theorem head_data : w.head.data (w.bytes ++ t) = w.data := by
  rw [ChunkHead.data, drop_total]
  exact List.take_left

theorem drop_all : (w.bytes ++ t).drop (w.head.totalHeader + w.head.toRead) = t := by
  rw [← List.drop_drop, drop_total]
  exact List.drop_left

theorem WellFormed.basic_read (hw : w.WellFormed) :
    readBasicHeader (w.bytes ++ t) = some (w.header.fmt, w.csid, w.basic.length) := by
  rw [bytes_append]
  exact read_basic_form w.header.fmt_le hw.basic _

theorem WellFormed.ts_read (hw : w.WellFormed) :
    peekTimestamp (w.bytes ++ t) w.header.fmt w.basic.length = w.header.ts := by
  rw [← w.header.read_ts hw.fits (extBytes w.ext ++ (w.data ++ t)), peekTimestamp, field24,
    drop_basic]
  rfl

theorem WellFormed.length_read (hw : w.WellFormed) :
    peekLength (w.bytes ++ t) w.header.fmt w.basic.length = w.header.length := by
  rw [← w.header.read_length hw.fits (extBytes w.ext ++ (w.data ++ t)), peekLength, field24,
    ← List.drop_drop, drop_basic]
  rfl

theorem WellFormed.head_fields (hw : w.WellFormed) :
    w.head.fields (w.bytes ++ t) = w.header.fields := by
  rw [ChunkHead.fields]
  change messageFields w.header.fmt
    (((w.bytes ++ t).drop w.basic.length).take w.header.size) = _
  rw [drop_basic, ← Header.bytes_length, List.take_left, w.header.read_fields hw.fits]

theorem WellFormed.head_time (hw : w.WellFormed) :
    w.head.finalTimestamp (w.bytes ++ t) = w.time := by
  rw [ChunkHead.finalTimestamp, hw.head_fields]
  change (if w.ext.isSome = true then UInt32.ofNat (Bytes.ofBe
    (((w.bytes ++ t).drop (w.basic.length + w.header.size)).take 4)) else _) = _
  rw [drop_header]
  cases he : w.ext with
  | none =>
    simp only [Option.isSome_none, Bool.false_eq_true, if_false, time, he, Option.getD_none]
    cases w.header <;> rfl
  | some v =>
    have hv : Bytes.ofBe (Bytes.toBe 4 v.toNat) = v.toNat := Bytes.of_be_to_be_lt v.toNat_lt
    simp [extBytes, time, he, hv]

end Chunk

end LibRtmp.Wire
