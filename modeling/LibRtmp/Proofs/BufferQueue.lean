import LibRtmp.Lib.Runs
import LibRtmp.Buffer.Basic

namespace LibRtmp.Proofs.BufferQueue

inductive BufferCall where
  | write (d : List UInt8)
  | reserve (additional : Nat)
  | read (n : Nat) (h : n ≤ isizeMax)
  | drain (len : Nat)
  | peek
  | take
  | reset
  | releaseExcess (keep : Nat)

inductive Reply where
  | done (n : Nat)
  | bytes (d : List UInt8)
  | failed (e : ErrorCode)
  deriving DecidableEq

def countReply : Except ErrorCode Nat → Reply
  | .ok n => .done n
  | .error e => .failed e

def unitReply : Except ErrorCode Unit → Reply
  | .ok () => .done 0
  | .error e => .failed e

def bytesReply : Except ErrorCode (List UInt8) → Reply
  | .ok d => .bytes d
  | .error e => .failed e

def callRaw (b : RawBuffer) : BufferCall → Option (RawBuffer × Reply)
  | .write d => (b.write d).map (fun (b, r) => (b, countReply r))
  | .reserve k => (b.reserve k).map (fun (b, r) => (b, unitReply r))
  | .read n _ => (b.read n).map (fun (b, r) => (b, bytesReply r))
  | .drain n => some (b.drain n, .done 0)
  | .peek => b.peek.map (fun d => (b, .bytes d))
  | .take => some (b.take.1, .bytes b.take.2)
  | .reset => some (b.reset, .done 0)
  | .releaseExcess keep => (b.releaseExcess keep).map (fun b => (b, .done 0))

/-- A bounded queue, as everything ever written and how much of it was consumed. -/
structure Ledger where
  written : List UInt8
  consumed : Nat

namespace Ledger

def contents (q : Ledger) : List UInt8 := q.written.drop q.consumed

def consume (q : Ledger) (n : Nat) : Ledger := { q with consumed := q.consumed + n }

def call (q : Ledger) : BufferCall → Ledger × Reply
  | .write d =>
    if d = [] ∨ q.contents.length + d.length ≤ bufferMaxSize
    then ({ q with written := q.written ++ d }, .done d.length) else (q, .failed .internal)
  | .reserve k =>
    (q, if q.contents.length + k ≤ bufferMaxSize then .done 0 else .failed .internal)
  | .read n _ =>
    if n ≤ q.contents.length then (q.consume n, .bytes (q.contents.take n)) else (q, .failed .io)
  | .drain n => (q.consume (min n q.contents.length), .done 0)
  | .peek => (q, .bytes q.contents)
  | .take => (q.consume q.contents.length, .bytes q.contents)
  | .reset => (q.consume q.contents.length, .done 0)
  | .releaseExcess _ => (q, .done 0)

theorem contents_consume (q : Ledger) (n : Nat) : (q.consume n).contents = q.contents.drop n := by
  simp [contents, consume, List.drop_drop]

theorem contents_write (q : Ledger) (h : q.consumed ≤ q.written.length) (d : List UInt8) :
    Ledger.contents { q with written := q.written ++ d } = q.contents ++ d := by
  exact List.drop_append_of_le_length h

end Ledger

/-- A buffer stands for a queue: valid cursors, and the unread bytes are its contents. -/
structure Represents (b : RawBuffer) (q : Ledger) : Prop where
  valid : b.Valid
  unread : b.unread = q.contents
  inside : q.consumed ≤ q.written.length

theorem Represents.available {b : RawBuffer} {q : Ledger} (h : Represents b q) :
    b.available = q.contents.length := by
  rw [← h.valid.unread_length, h.unread]

theorem Represents.consume {b c : RawBuffer} {q : Ledger} (h : Represents b q) {n : Nat}
    (hn : n ≤ q.contents.length) (hc : c.Valid) (hu : c.unread = b.unread.drop n) :
    Represents c (q.consume n) := by
  refine ⟨hc, by rw [hu, h.unread, Ledger.contents_consume], ?_⟩
  have hi := h.inside
  simp only [Ledger.contents, List.length_drop, Ledger.consume] at hn ⊢
  omega

/-- One call on the buffer returns what the queue returns. -/
theorem call_represents (b : RawBuffer) (q : Ledger) (c : BufferCall) (h : Represents b q) :
    ∃ b', callRaw b c = some (b', (q.call c).2) ∧ Represents b' (q.call c).1 := by
  have ha := h.available
  cases c with
  | write d =>
    obtain ⟨b', hw, hv, hu⟩ := h.valid.write d
    rw [ha] at hw hu
    by_cases hd : d = [] ∨ q.contents.length + d.length ≤ bufferMaxSize
    · refine ⟨b', by simp only [callRaw, hw, Ledger.call, if_pos hd, Option.map_some, countReply],
        ?_⟩
      simp only [Ledger.call, if_pos hd]
      refine ⟨hv, ?_, Nat.le_trans h.inside (by simp)⟩
      rw [Ledger.contents_write q h.inside, hu, h.unread]
      split
      · rfl
      · rcases hd with he | hfit
        · simp [he]
        · contradiction
    · refine ⟨b', by simp only [callRaw, hw, Ledger.call, if_neg hd, Option.map_some, countReply],
        ?_⟩
      simp only [Ledger.call, if_neg hd]
      refine ⟨hv, ?_, h.inside⟩
      rw [hu, if_neg (fun hfit => hd (Or.inr hfit)), h.unread]
  | reserve k =>
    obtain ⟨b', hw, hv, hu, -⟩ := h.valid.make_room k
    rw [ha] at hw
    refine ⟨b', ?_, hv, hu.trans h.unread, h.inside⟩
    simp only [callRaw, RawBuffer.reserve, hw, Ledger.call, Option.map_some]
    split <;> rfl
  | read n hn =>
    obtain ⟨b', hw, hv, hu⟩ := h.valid.read hn
    rw [ha] at hw hu
    by_cases hf : n ≤ q.contents.length
    · refine ⟨b', by simp only [callRaw, hw, Ledger.call, if_pos hf, Option.map_some, bytesReply,
        h.unread], ?_⟩
      rw [if_pos hf] at hu
      simp only [Ledger.call, if_pos hf]
      exact h.consume hf hv hu
    · refine ⟨b', by simp only [callRaw, hw, Ledger.call, if_neg hf, Option.map_some, bytesReply],
        ?_⟩
      rw [if_neg hf] at hu
      simp only [Ledger.call, if_neg hf]
      exact ⟨hv, hu.trans h.unread, h.inside⟩
  | drain n =>
    obtain ⟨hv, hu⟩ := h.valid.drain n
    refine ⟨b.drain n, rfl, h.consume (Nat.min_le_right _ _) hv ?_⟩
    rw [hu, ← ha, ← h.valid.unread_length]
    rcases Nat.le_total n b.unread.length with hn | hn
    · rw [Nat.min_eq_left hn]
    · rw [Nat.min_eq_right hn, List.drop_of_length_le hn, List.drop_length]
  | peek =>
    exact ⟨b, by simp [callRaw, h.valid.peek_eq, Ledger.call, h.unread], h⟩
  | take =>
    obtain ⟨hv, hu, ht⟩ := h.valid.take
    refine ⟨b.take.1, by simp [callRaw, Ledger.call, ht, h.unread], ?_⟩
    exact h.consume (Nat.le_refl _) hv (by rw [hu, h.unread, List.drop_length])
  | reset =>
    obtain ⟨hv, hu⟩ := h.valid.reset
    refine ⟨b.reset, rfl, ?_⟩
    exact h.consume (Nat.le_refl _) hv (by rw [hu, h.unread, List.drop_length])
  | releaseExcess keep =>
    obtain ⟨b', hw, hv, hu⟩ := h.valid.release_excess keep
    exact ⟨b', by simp [callRaw, hw, Ledger.call], hv, hu.trans h.unread, h.inside⟩

inductive Start where
  | new
  | withCapacity (n : Nat) (h : n ≤ isizeMax)
  | fromSlice (d : List UInt8) (h : d.length ≤ isizeMax)

def Start.buffer : Start → RawBuffer
  | .new => .new
  | .withCapacity n _ => .withCapacity n
  | .fromSlice d _ => .fromSlice d

def Start.ledger : Start → Ledger
  | .fromSlice d _ => ⟨d, 0⟩
  | _ => ⟨[], 0⟩

theorem start_represents (s : Start) : Represents s.buffer s.ledger := by
  cases s with
  | new => exact ⟨RawBuffer.new_valid, Buffer.peek_new, Nat.le_refl _⟩
  | withCapacity n h =>
    exact ⟨RawBuffer.with_capacity_valid h, Buffer.peek_with_capacity n h, Nat.le_refl _⟩
  | fromSlice d h =>
    exact ⟨RawBuffer.from_slice_valid h, Buffer.peek_from_slice d h, Nat.zero_le _⟩

/-- Writes that total at most the room left all succeed. -/
theorem writes_fit (q : Ledger) (ws : List (List UInt8)) (hi : q.consumed ≤ q.written.length)
    (hf : q.contents.length + (ws.map List.length).sum ≤ bufferMaxSize) :
    (Runs.total Ledger.call q (ws.map .write)).2 = ws.map (fun d => .done d.length) := by
  induction ws generalizing q with
  | nil => rfl
  | cons d ws ih =>
    simp only [List.map_cons, List.sum_cons] at hf
    have hd : d = [] ∨ q.contents.length + d.length ≤ bufferMaxSize := Or.inr (by omega)
    simp only [List.map_cons, Runs.total, Ledger.call, if_pos hd]
    rw [ih]
    · exact Nat.le_trans hi (by simp)
    · rw [Ledger.contents_write q hi, List.length_append]
      omega

/-- Whatever the calls, a buffer never panics, replies as the bounded queue does and
shows by `peek` the bytes written minus those consumed; and after a successful `reserve`
every sequence of writes within the reserved total succeeds. -/
theorem buffer_refines_bounded_queue (s : Start) (cs : List BufferCall) :
    ∃ b, Runs.calls callRaw s.buffer cs = some (b, (Runs.total Ledger.call s.ledger cs).2) ∧
      b.peek = some (Runs.total Ledger.call s.ledger cs).1.contents ∧
      ∀ (k : Nat) (b' : RawBuffer), b.reserve k = some (b', .ok ()) →
        ∀ ws : List (List UInt8), (ws.map List.length).sum ≤ k →
          ∃ b'', Runs.calls callRaw b' (ws.map .write) =
            some (b'', ws.map (fun d => .done d.length)) := by
  obtain ⟨b, hb, hr⟩ := Runs.calls_simulate call_represents (start_represents s) cs
  refine ⟨b, hb, by rw [hr.valid.peek_eq, hr.unread], ?_⟩
  intro k b' hk ws hw
  obtain ⟨c, hc, hcr⟩ := call_represents b _ (.reserve k) hr
  have hroom : (Runs.total Ledger.call s.ledger cs).1.contents.length + k ≤ bufferMaxSize := by
    rw [← hr.available]
    obtain ⟨d, hd, -⟩ := hr.valid.make_room k
    rw [RawBuffer.reserve, hd] at hk
    simp only [Option.some.injEq, Prod.mk.injEq] at hk
    by_contra hn
    rw [if_neg hn] at hk
    cases hk.2
  have he : c = b' := by
    simp only [callRaw, hk, Option.map_some, Option.some.injEq, Prod.mk.injEq] at hc
    exact hc.1.symm
  subst he
  obtain ⟨b'', hw', -⟩ := Runs.calls_simulate call_represents hcr (ws.map .write)
  refine ⟨b'', ?_⟩
  rw [hw']
  simp only [Ledger.call]
  rw [writes_fit _ ws hr.inside (by omega)]

end LibRtmp.Proofs.BufferQueue
