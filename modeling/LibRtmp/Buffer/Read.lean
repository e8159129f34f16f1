import LibRtmp.Buffer.Write
import LibRtmp.Lib.Bytes
import LibRtmp.Lib.Parsing

namespace LibRtmp

open Actions Parsing

abbrev ReadM := Action ErrorCode Buffer

def orElseError {α : Type} (e : ErrorCode) : Buffer × Except ErrorCode α → Except ErrorCode α × Buffer
  | (b, .ok a) => (.ok a, b)
  | (b, .error _) => (.error e, b)

def readBytes (e : ErrorCode) (n : Nat) : ReadM (List UInt8) :=
  ExceptT.mk (fun b => orElseError e (b.read n))

def readBe (e : ErrorCode) (n : Nat) : ReadM Nat := do
  let d ← readBytes e n
  pure (Bytes.ofBe d)

def dropBytes (e : ErrorCode) (n : Nat) : ReadM Unit := do
  let b ← get
  if b.available < n then throw e else modify (fun b => b.drain n)

section Specs

theorem on_read_bytes (e : ErrorCode) (n : Nat) (b : Buffer) :
    ((readBytes e n).on b).1 = (if n ≤ b.peek.length then .ok (b.peek.take n) else .error e) ∧
      ((readBytes e n).on b).2.peek = if n ≤ b.peek.length then b.peek.drop n else b.peek := by
  have hr := b.read_result n
  have hp := b.peek_read n
  change (orElseError e (b.read n)).1 = _ ∧ (orElseError e (b.read n)).2.peek = _
  generalize b.read n = r at hr hp
  obtain ⟨c, r⟩ := r
  subst hr
  by_cases hn : n ≤ b.peek.length
  · simp only [hn, if_true] at hp ⊢
    exact ⟨rfl, hp⟩
  · simp only [hn, if_false] at hp ⊢
    exact ⟨rfl, hp⟩

theorem reads_bytes (e : ErrorCode) {n : Nat} {d : List UInt8} (h : d.length = n) :
    Reads Buffer.peek (readBytes e n) d d := by
  subst h
  intro b tail hb
  obtain ⟨h₁, h₂⟩ := on_read_bytes e d.length b
  have hle : d.length ≤ b.peek.length := by rw [hb, List.length_append]; omega
  rw [if_pos hle, hb] at h₁ h₂
  exact ⟨by rw [h₁, List.take_left], by rw [h₂, List.drop_left]⟩

theorem sound_bytes (e : ErrorCode) (n : Nat) :
    Sound Buffer.peek (readBytes e n) (fun a d => a = d ∧ d.length = n) := by
  intro b a ha
  obtain ⟨h₁, h₂⟩ := on_read_bytes e n b
  by_cases hn : n ≤ b.peek.length
  · rw [if_pos hn] at h₁ h₂
    rw [ha] at h₁
    cases h₁
    exact ⟨_, by rw [h₂, List.take_append_drop], rfl, List.length_take_of_le hn⟩
  · rw [if_neg hn, ha] at h₁
    cases h₁

theorem reads_be (e : ErrorCode) {n k : Nat} (h : k < 256 ^ n) :
    Reads Buffer.peek (readBe e n) (Bytes.toBe n k) k := by
  have hb : Reads Buffer.peek (readBe e n) (Bytes.toBe n k ++ []) (Bytes.ofBe (Bytes.toBe n k)) :=
    (reads_bytes e (Bytes.to_be_length n k)).bind (reads_pure _)
  rwa [List.append_nil, Bytes.of_be_to_be_lt h] at hb

theorem sound_be (e : ErrorCode) (n : Nat) :
    Sound Buffer.peek (readBe e n) (fun k d => k < 256 ^ n ∧ d = Bytes.toBe n k) := by
  refine (sound_bytes e n).bind fun d d' hd => sound_pure ?_
  obtain ⟨rfl, hlen⟩ := hd
  rw [List.append_nil]
  subst hlen
  exact ⟨Bytes.of_be_lt d, (Bytes.to_be_of_be d).symm⟩

theorem reads_drop (e : ErrorCode) {n : Nat} {d : List UInt8} (h : d.length = n) :
    Reads Buffer.peek (dropBytes e n) d () := by
  subst h
  intro b tail hb
  have hle : ¬ b.available < d.length := by
    rw [Buffer.available_eq, hb, List.length_append]
    omega
  simp only [dropBytes, Action.on_bind, Action.on_get, if_neg hle, Action.on_modify, true_and]
  rw [Buffer.peek_drain, hb, List.drop_left]

theorem sound_drop (e : ErrorCode) (n : Nat) :
    Sound Buffer.peek (dropBytes e n) (fun _ d => d.length = n) := by
  intro b a ha
  simp only [dropBytes, Action.on_bind, Action.on_get] at ha ⊢
  split at ha
  · cases ha
  · rename_i hn
    rw [Buffer.available_eq] at hn
    rw [if_neg (by rwa [Buffer.available_eq])]
    simp only [Action.on_modify, Buffer.peek_drain]
    exact ⟨b.peek.take n, (List.take_append_drop n _).symm, by rw [List.length_take]; omega⟩

variable {α : Type} {x : ErrorCode} {m : ReadM α} {P : Prop} [Decidable P] {len : Nat}

theorem sound_guarded {Q : α → List UInt8 → Prop} (hm : ¬ P → Sound Buffer.peek m Q) :
    Sound Buffer.peek (get >>= fun b => if P ∨ b.available < len then throw x else m) Q := by
  intro b a ha
  rw [Action.on_bind, Action.on_get] at ha ⊢
  dsimp only at ha ⊢
  split at ha
  · cases ha
  · rename_i hP
    rw [if_neg hP]
    exact hm (fun h => hP (.inl h)) b a ha

theorem reads_guarded {d : List UInt8} {a : α} (hP : ¬ P) (hlen : len ≤ d.length)
    (hm : Reads Buffer.peek m d a) :
    Reads Buffer.peek (get >>= fun b => if P ∨ b.available < len then throw x else m) d a := by
  intro b tail hb
  have hthere : ¬ b.available < len := by
    rw [Buffer.available_eq, hb, List.length_append]
    omega
  rw [Action.on_bind, Action.on_get]
  dsimp only
  rw [if_neg (not_or.mpr ⟨hP, hthere⟩)]
  exact hm b tail hb

end Specs

end LibRtmp
