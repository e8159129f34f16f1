import LibRtmp.Buffer.Raw

namespace LibRtmp

namespace RawBuffer

def unread (b : RawBuffer) : List UInt8 := (b.data.take b.size).drop b.readPos

variable {b : RawBuffer}

theorem Valid.unread_length (hv : b.Valid) : b.unread.length = b.available := by
  have := hv.size_le
  simp only [unread, available, List.length_drop, List.length_take]
  omega

theorem Valid.peek_eq (hv : b.Valid) : b.peek = some b.unread := by
  simp [peek, sliceRange, unread, hv.read_le, hv.size_le]

theorem with_capacity_valid {n : Nat} (h : n ≤ isizeMax) : (withCapacity n).Valid :=
  ⟨Nat.le_refl _, Nat.zero_le _, by simpa [withCapacity] using h, rfl⟩

theorem new_valid : new.Valid := with_capacity_valid (by decide)

theorem from_slice_valid {d : List UInt8} (h : d.length ≤ isizeMax) : (fromSlice d).Valid :=
  ⟨Nat.zero_le _, Nat.le_refl _, h, rfl⟩

/-- Both cursors at the front: the state of a drained buffer. -/
theorem Valid.rewind (hv : b.Valid) : Valid { b with size := 0, readPos := 0 } :=
  ⟨Nat.le_refl _, Nat.zero_le _, hv.data_le, hv.owned⟩

theorem unread_nil (h : b.size ≤ b.readPos) : b.unread = [] := by
  apply List.drop_eq_nil_of_le
  simp only [List.length_take]
  omega

/-- Compacting keeps the unread bytes and the allocation. -/
theorem Valid.compact (hv : b.Valid) :
    ∃ b', b.compact = some b' ∧ b'.Valid ∧ b'.unread = b.unread ∧
      b'.size = b.available ∧ b'.data.length = b.data.length := by
  have hr := hv.read_le
  have hs := hv.size_le
  unfold RawBuffer.compact
  by_cases h0 : b.readPos = 0
  · exact ⟨b, by simp [h0], hv, rfl, by simp [available, h0], rfl⟩
  by_cases hd : b.readPos ≥ b.size
  · refine ⟨{ b with size := 0, readPos := 0 }, by simp [h0, hd], hv.rewind, ?_, ?_, rfl⟩
    · rw [unread_nil (b := b) hd]
      simp [unread]
    · simp only [available]
      omega
  · have hl : ((b.data.take b.size).drop b.readPos).length = b.size - b.readPos := by
      simp only [List.length_drop, List.length_take]
      omega
    have hroom : b.size - b.readPos ≤ b.data.length := by omega
    have hslice : sliceRange b.data b.readPos b.size =
        some ((b.data.take b.size).drop b.readPos) := by
      simp [sliceRange, hr, hs]
    refine ⟨{ b with
      data := (b.data.take b.size).drop b.readPos ++ b.data.drop (b.size - b.readPos),
      size := b.size - b.readPos, readPos := 0 }, ?_, ?_, ?_, rfl, ?_⟩
    · simp only [h0, hd, if_false, hslice, copyInto, Nat.zero_add, hl, hroom, if_true,
        List.take_zero, List.nil_append, bind, Option.bind, pure]
    · refine ⟨Nat.zero_le _, ?_, ?_, hv.owned⟩
      · simp only [List.length_append, hl]
        omega
      · have := hv.data_le
        simp only [List.length_append, hl, List.length_drop]
        omega
    · simp only [unread, List.drop_zero]
      rw [List.take_append_of_le_length (by omega), List.take_of_length_le (by omega)]
    · simp only [List.length_append, hl, List.length_drop]
      omega

theorem grow_capacity_ge {cap needed : Nat} (hc : 0 < cap) (hn : needed ≤ bufferMaxSize) :
    needed ≤ growCapacity cap needed hc := by
  fun_induction growCapacity cap needed hc with
  | case1 cap hc hlt next hm => exact hn
  | case2 cap hc hlt next hm ih => exact ih
  | case3 cap hc hge => omega

theorem grow_capacity_le {cap m : Nat} (needed : Nat) (hc : 0 < cap) (hm : bufferMaxSize ≤ m)
    (hcap : cap ≤ m) : growCapacity cap needed hc ≤ m := by
  fun_induction growCapacity cap needed hc with
  | case1 cap hc hlt next hn => exact hm
  | case2 cap hc hlt next hn ih => exact ih (by omega)
  | case3 cap hc hge => exact hcap

/-- Growing keeps the unread bytes. -/
theorem Valid.ensure_capacity (hv : b.Valid) (needed : Nat) (hn : needed ≤ bufferMaxSize) :
    ∃ b', b.ensureCapacity needed = (b', .ok ()) ∧ b'.Valid ∧ b'.unread = b.unread ∧
      b'.size = b.size ∧ needed ≤ b'.data.length := by
  have hs := hv.size_le
  unfold ensureCapacity
  by_cases hf : needed ≤ b.data.length
  · exact ⟨b, by simp [hf], hv, rfl, rfl, hf⟩
  · have hcap : 0 < max b.data.length bufferInitialSize := by simp only [bufferInitialSize]; omega
    have hlow := grow_capacity_ge hcap hn
    have hhigh := grow_capacity_le (m := isizeMax) needed hcap (by decide) (by
      have := hv.data_le
      have : bufferInitialSize ≤ isizeMax := by decide
      omega)
    have hlen : (resizeVec b.data (growCapacity _ needed hcap)).length =
        growCapacity _ needed hcap := by
      simp only [resizeVec, List.length_append, List.length_take, List.length_replicate]
      omega
    have htake : (resizeVec b.data (growCapacity _ needed hcap)).take b.size =
        b.data.take b.size := by
      rw [resizeVec, List.take_of_length_le (i := growCapacity _ needed hcap) (by omega)]
      exact List.take_append_of_le_length hs
    refine ⟨{ b with data := resizeVec b.data (growCapacity _ needed hcap) }, ?_, ?_, ?_, rfl, ?_⟩
    · simp [hf, hv.owned, Nat.not_lt.mpr hn]
    · exact ⟨hv.read_le, by change b.size ≤ _; rw [hlen]; omega, by rw [hlen]; exact hhigh, hv.owned⟩
    · simp only [unread, htake]
    · rw [hlen]
      exact hlow

/-- There is room exactly when the unread bytes and the new ones stay under the cap. -/
theorem Valid.make_room (hv : b.Valid) (k : Nat) :
    ∃ b', b.makeRoom k = some (b', if b.available + k ≤ bufferMaxSize then .ok ()
        else .error .internal) ∧ b'.Valid ∧ b'.unread = b.unread ∧
      (b.available + k ≤ bufferMaxSize → b'.size + k ≤ b'.data.length) := by
  let r : RawBuffer := if b.readPos > 0 ∧ b.readPos ≥ b.size
    then { b with size := 0, readPos := 0 } else b
  have hr : r.Valid ∧ r.unread = b.unread ∧ r.available = b.available := by
    by_cases hd : b.readPos > 0 ∧ b.readPos ≥ b.size
    · simp only [r, hd, and_self, if_true]
      refine ⟨hv.rewind, ?_, ?_⟩
      · rw [unread_nil (b := b) hd.2]
        simp [unread]
      · simp only [available]
        omega
    · simp only [r, hd, if_false]
      exact ⟨hv, trivial, trivial⟩
  obtain ⟨hrv, hru, hra⟩ := hr
  have hroom : b.makeRoom k = (if k > bufferMaxSize ∨ r.available > bufferMaxSize - k then
      some (r, .error .internal) else if k ≤ r.space then some (r, .ok ()) else do
        let b ← r.compact
        let needed ← checkedAdd b.size k
        return b.ensureCapacity needed) := rfl
  rw [hroom]
  by_cases hfit : b.available + k ≤ bufferMaxSize
  · have hcap : ¬ (k > bufferMaxSize ∨ r.available > bufferMaxSize - k) := by omega
    simp only [hcap, if_false, hfit, if_true, forall_const]
    by_cases hsp : k ≤ r.space
    · refine ⟨r, by simp [hsp], hrv, hru, ?_⟩
      have := hrv.size_le
      simp only [space] at hsp
      omega
    · obtain ⟨c, hc, hcv, hcu, hcs, -⟩ := hrv.compact
      have hmax : bufferMaxSize ≤ usizeMax := by decide
      have hadd : checkedAdd c.size k = some (c.size + k) := by
        simp only [checkedAdd]
        rw [if_pos (by omega)]
      obtain ⟨e, he, hev, heu, hes, hel⟩ :=
        hcv.ensure_capacity (c.size + k) (by omega)
      exact ⟨e, by simp [hsp, hc, hadd, he], hev, heu.trans (hcu.trans hru), by rw [hes]; exact hel⟩
  · have hcap : k > bufferMaxSize ∨ r.available > bufferMaxSize - k := by omega
    exact ⟨r, by simp [hcap, hfit], hrv, hru, fun h => absurd h hfit⟩

/-- A write within the cap appends, and any other leaves the bytes. -/
theorem Valid.write (hv : b.Valid) (d : List UInt8) :
    ∃ b', b.write d = some (b', if d = [] ∨ b.available + d.length ≤ bufferMaxSize
        then .ok d.length else .error .internal) ∧ b'.Valid ∧
      b'.unread = if b.available + d.length ≤ bufferMaxSize then b.unread ++ d else b.unread := by
  unfold RawBuffer.write
  by_cases he : d = []
  · exact ⟨b, by simp [he], hv, by simp [he]⟩
  obtain ⟨c, hc, hcv, hcu, hroom⟩ := hv.make_room d.length
  have hne : d.isEmpty = false := by simp [he]
  by_cases hfit : b.available + d.length ≤ bufferMaxSize
  · have hr := hroom hfit
    have hmax : isizeMax ≤ usizeMax := by decide
    have hadd : checkedAdd c.size d.length = some (c.size + d.length) := by
      have := hcv.data_le
      simp only [checkedAdd]
      rw [if_pos (by omega)]
    have hcopy : copyInto c.data c.size d =
        some (c.data.take c.size ++ d ++ c.data.drop (c.size + d.length)) := by
      simp [copyInto, hr]
    have hlen : (c.data.take c.size ++ d).length = c.size + d.length := by
      simp only [List.length_append, List.length_take]
      omega
    have hdata : (c.data.take c.size ++ d ++ c.data.drop (c.size + d.length)).length =
        c.data.length := by
      rw [List.length_append, hlen, List.length_drop]
      omega
    refine ⟨{ c with
      data := c.data.take c.size ++ d ++ c.data.drop (c.size + d.length),
      size := c.size + d.length }, ?_, ?_, ?_⟩
    · simp [hne, hc, hfit, hadd, hcopy]
    · refine ⟨Nat.le_trans hcv.read_le (Nat.le_add_right _ _), ?_, ?_, hcv.owned⟩
      · rw [hdata]
        exact hr
      · rw [hdata]
        exact hcv.data_le
    · rw [if_pos hfit, ← hcu]
      simp only [unread]
      rw [List.take_append_of_le_length (Nat.le_of_eq hlen.symm),
        List.take_of_length_le (Nat.le_of_eq hlen)]
      apply List.drop_append_of_le_length
      have := hcv.read_le
      have := hcv.size_le
      simp only [List.length_take]
      omega
  · exact ⟨c, by simp [hne, he, hc, hfit], hcv, by rw [if_neg hfit]; exact hcu⟩

/-- A read takes all that was asked for, or nothing. -/
theorem Valid.read (hv : b.Valid) {n : Nat} (hn : n ≤ isizeMax) :
    ∃ b', b.read n = some (b', if n ≤ b.available then .ok (b.unread.take n)
        else .error .io) ∧ b'.Valid ∧
      b'.unread = if n ≤ b.available then b.unread.drop n else b.unread := by
  have hr := hv.read_le
  have hs := hv.size_le
  have hd := hv.data_le
  have hmax : isizeMax + isizeMax ≤ usizeMax := by decide
  have hadd : checkedAdd b.readPos n = some (b.readPos + n) := by
    simp only [checkedAdd]
    rw [if_pos (by omega)]
  by_cases hfit : n ≤ b.available
  · have hle : b.readPos + n ≤ b.size := by simp only [available] at hfit; omega
    have hslice : sliceRange b.data b.readPos (b.readPos + n) = some (b.unread.take n) := by
      simp only [sliceRange, unread]
      rw [if_pos (by omega), List.take_drop, List.take_take, Nat.min_eq_left hle]
    refine ⟨{ b with readPos := b.readPos + n }, ?_, ⟨hle, hs, hd, hv.owned⟩, ?_⟩
    · simp [RawBuffer.read, hadd, Nat.not_lt.mpr hle, hslice, hfit]
    · rw [if_pos hfit]
      simp only [unread, List.drop_drop]
  · have hgt : b.readPos + n > b.size := by simp only [available] at hfit; omega
    exact ⟨b, by simp [RawBuffer.read, hadd, hgt, hfit], hv, by rw [if_neg hfit]⟩

theorem Valid.reset (hv : b.Valid) : b.reset.Valid ∧ b.reset.unread = [] := by
  refine ⟨⟨Nat.le_refl _, Nat.zero_le _, ?_, hv.owned⟩, by simp [RawBuffer.reset, unread]⟩
  have := hv.data_le
  simp only [RawBuffer.reset]
  split
  · simp only [List.length_take]
    omega
  · exact this

theorem Valid.release_excess (hv : b.Valid) (keep : Nat) :
    ∃ b', b.releaseExcess keep = some b' ∧ b'.Valid ∧ b'.unread = b.unread := by
  unfold RawBuffer.releaseExcess
  by_cases hk : b.owned = false ∨ b.data.length ≤ keep ∨ b.available > keep / 2
  · exact ⟨b, by simp [hk], hv, rfl⟩
  · obtain ⟨c, hc, hcv, hcu, -, -⟩ := hv.compact
    have hs := hcv.size_le
    have hd := hcv.data_le
    refine ⟨{ c with data := c.data.take (max c.size bufferInitialSize) }, ?_, ?_, ?_⟩
    · simp [hk, hc]
    · refine ⟨hcv.read_le, ?_, ?_, hcv.owned⟩
      · simp only [List.length_take]
        omega
      · simp only [List.length_take]
        omega
    · rw [← hcu]
      simp only [unread, List.take_take]
      rw [Nat.min_eq_left (Nat.le_max_left _ _)]

theorem Valid.drain (hv : b.Valid) (n : Nat) :
    (b.drain n).Valid ∧ (b.drain n).unread = b.unread.drop n := by
  have hr := hv.read_le
  refine ⟨⟨?_, hv.size_le, hv.data_le, hv.owned⟩, ?_⟩
  · simp only [RawBuffer.drain, available]
    omega
  · have hlen := hv.unread_length
    simp only [RawBuffer.drain]
    change (b.data.take b.size).drop (b.readPos + min n b.available) = b.unread.drop n
    rw [← List.drop_drop, ← unread]
    by_cases h : n ≤ b.available
    · rw [Nat.min_eq_left h]
    · rw [Nat.min_eq_right (by omega), List.drop_of_length_le (by omega),
        List.drop_of_length_le (by omega)]

theorem Valid.take (hv : b.Valid) : b.take.1.Valid ∧ b.take.1.unread = [] ∧ b.take.2 = b.unread := by
  have hr := hv.read_le
  have hs := hv.size_le
  refine ⟨⟨Nat.le_refl _, Nat.zero_le _, ?_, hv.owned⟩, by simp [RawBuffer.take, unread], ?_⟩
  · simp [RawBuffer.take, hv.owned]
  · simp only [RawBuffer.take, unread]
    split
    · rw [Nat.min_eq_left (by simp only [List.length_take]; omega)]
    · have h0 : b.readPos = 0 := by omega
      rw [h0, List.drop_zero]

end RawBuffer

/-- A byte buffer whose cursors are in range; every operation below keeps it so. -/
structure Buffer where
  raw : RawBuffer
  valid : raw.Valid

namespace Buffer

def withCapacity (n : Nat) (h : n ≤ isizeMax) : Buffer :=
  ⟨.withCapacity n, RawBuffer.with_capacity_valid h⟩

def new : Buffer := ⟨.new, RawBuffer.new_valid⟩

def fromSlice (d : List UInt8) (h : d.length ≤ isizeMax) : Buffer :=
  ⟨.fromSlice d, RawBuffer.from_slice_valid h⟩

def available (b : Buffer) : Nat := b.raw.available

def peek (b : Buffer) : List UInt8 := b.raw.unread

/-- Keep the outcome of a call that returns; on a valid buffer every call does. -/
def settle {α : Type} (b : Buffer) (c : Call (RawBuffer × Except ErrorCode α)) (e : ErrorCode)
    (h : ∀ r, c = some r → r.1.Valid) : Buffer × Except ErrorCode α :=
  match c, h with
  | some r, h => (⟨r.1, h r rfl⟩, r.2)
  | none, _ => (b, .error e)

theorem settle_some {α : Type} {b : Buffer} {c : Call (RawBuffer × Except ErrorCode α)}
    {e : ErrorCode} {h : ∀ r, c = some r → r.1.Valid} {r : RawBuffer × Except ErrorCode α}
    (hc : c = some r) : b.settle c e h = (⟨r.1, h r hc⟩, r.2) := by
  subst hc
  rfl

def write (b : Buffer) (d : List UInt8) : Buffer × Except ErrorCode Nat :=
  b.settle (b.raw.write d) .internal (by
    intro r hr
    obtain ⟨c, hc, hcv, -⟩ := b.valid.write d
    rw [hc] at hr
    cases hr
    exact hcv)

def reserve (b : Buffer) (additional : Nat) : Buffer × Except ErrorCode Unit :=
  b.settle (b.raw.reserve additional) .internal (by
    intro r hr
    obtain ⟨c, hc, hcv, -⟩ := b.valid.make_room additional
    rw [RawBuffer.reserve, hc] at hr
    cases hr
    exact hcv)

def read (b : Buffer) (n : Nat) : Buffer × Except ErrorCode (List UInt8) :=
  if hn : n ≤ isizeMax then
    b.settle (b.raw.read n) .io (by
      intro r hr
      obtain ⟨c, hc, hcv, -⟩ := b.valid.read hn
      rw [hc] at hr
      cases hr
      exact hcv)
  else (b, .error .io)

def reset (b : Buffer) : Buffer := ⟨b.raw.reset, b.valid.reset.1⟩

def drain (b : Buffer) (n : Nat) : Buffer := ⟨b.raw.drain n, (b.valid.drain n).1⟩

def take (b : Buffer) : Buffer × List UInt8 := (⟨b.raw.take.1, b.valid.take.1⟩, b.raw.take.2)

variable (b : Buffer)

theorem available_eq : b.available = b.peek.length := b.valid.unread_length.symm

theorem peek_length_le : b.peek.length ≤ isizeMax := by
  have hd := b.valid.data_le
  have hs := b.valid.size_le
  rw [← available_eq]
  simp only [available, RawBuffer.available]
  omega

@[simp] theorem peek_with_capacity (n : Nat) (h : n ≤ isizeMax) : (withCapacity n h).peek = [] := by
  simp [withCapacity, peek, RawBuffer.unread, RawBuffer.withCapacity]

@[simp] theorem peek_new : new.peek = [] := by
  simp [new, peek, RawBuffer.unread, RawBuffer.new, RawBuffer.withCapacity]

@[simp] theorem peek_from_slice (d : List UInt8) (h : d.length ≤ isizeMax) :
    (fromSlice d h).peek = d := by
  simp [fromSlice, peek, RawBuffer.unread, RawBuffer.fromSlice]

theorem write_result (d : List UInt8) : (b.write d).2 =
    if d = [] ∨ b.peek.length + d.length ≤ bufferMaxSize then .ok d.length
    else .error .internal := by
  obtain ⟨c, hc, -, -⟩ := b.valid.write d
  rw [write, settle_some hc, ← available_eq]
  rfl

theorem peek_write (d : List UInt8) : (b.write d).1.peek =
    if b.peek.length + d.length ≤ bufferMaxSize then b.peek ++ d else b.peek := by
  obtain ⟨c, hc, -, hcu⟩ := b.valid.write d
  rw [write, settle_some hc, ← available_eq]
  exact hcu

theorem reserve_result (k : Nat) : (b.reserve k).2 =
    if b.peek.length + k ≤ bufferMaxSize then .ok () else .error .internal := by
  obtain ⟨c, hc, -, -⟩ := b.valid.make_room k
  have hr : b.raw.reserve k = some (c, _) := hc
  rw [reserve, settle_some hr, ← available_eq]
  rfl

@[simp] theorem peek_reserve (k : Nat) : (b.reserve k).1.peek = b.peek := by
  obtain ⟨c, hc, -, hcu, -⟩ := b.valid.make_room k
  have hr : b.raw.reserve k = some (c, _) := hc
  rw [reserve, settle_some hr]
  exact hcu

theorem read_result (n : Nat) : (b.read n).2 =
    if n ≤ b.peek.length then .ok (b.peek.take n) else .error .io := by
  rw [read]
  split
  · rename_i hn
    obtain ⟨c, hc, -, -⟩ := b.valid.read hn
    rw [settle_some hc, ← available_eq]
    rfl
  · rename_i hn
    have hl := b.peek_length_le
    rw [if_neg (by omega)]

theorem peek_read (n : Nat) : (b.read n).1.peek =
    if n ≤ b.peek.length then b.peek.drop n else b.peek := by
  rw [read]
  split
  · rename_i hn
    obtain ⟨c, hc, -, hcu⟩ := b.valid.read hn
    rw [settle_some hc, ← available_eq]
    exact hcu
  · rename_i hn
    have hl := b.peek_length_le
    rw [if_neg (by omega)]

theorem read_ok {n : Nat} (h : n ≤ b.peek.length) :
    ∃ c, b.read n = (c, .ok (b.peek.take n)) ∧ c.peek = b.peek.drop n := by
  have hr := b.read_result n
  have hp := b.peek_read n
  rw [if_pos h] at hr hp
  exact ⟨(b.read n).1, Prod.ext rfl hr, hp⟩

theorem write_ok {d : List UInt8} (h : b.peek.length + d.length ≤ bufferMaxSize) :
    ∃ c, b.write d = (c, .ok d.length) ∧ c.peek = b.peek ++ d := by
  have hr := b.write_result d
  have hp := b.peek_write d
  rw [if_pos (Or.inr h)] at hr
  rw [if_pos h] at hp
  exact ⟨(b.write d).1, Prod.ext rfl hr, hp⟩

@[simp] theorem peek_reset : b.reset.peek = [] := b.valid.reset.2

@[simp] theorem peek_drain (n : Nat) : (b.drain n).peek = b.peek.drop n := (b.valid.drain n).2

@[simp] theorem peek_take : b.take.1.peek = [] := b.valid.take.2.1

@[simp] theorem take_bytes : b.take.2 = b.peek := b.valid.take.2.2

end Buffer

end LibRtmp
