import LibRtmp.Buffer.Read

namespace LibRtmp

open Actions

variable {T U α : Type}

/-- Code that reads from a buffer into an output. What has been put there stays when it fails. -/
abbrev FillM (T : Type) := Action ErrorCode (Buffer × T)

def reading (m : ReadM α) : FillM T α :=
  ExceptT.mk (fun s => ((m.on s.1).1, ((m.on s.1).2, s.2)))

def filling (f : T → T) : FillM T Unit := modify (fun s => (s.1, f s.2))

def into (part : T → U) (put : U → T → T) (m : FillM U α) : FillM T α :=
  ExceptT.mk (fun s =>
    let r := m.on (s.1, part s.2)
    (r.1, (r.2.1, put r.2.2 s.2)))

def peeking (m : ReadM α) : ReadM α :=
  ExceptT.mk (fun b =>
    match m.on b with
    | (.ok a, _) => (.ok a, b)
    | (.error e, b) => (.error e, b))

theorem on_peeking (m : ReadM α) (b : Buffer) : Action.on (peeking m) b =
    match m.on b with
    | (.ok a, _) => (.ok a, b)
    | (.error e, b) => (.error e, b) := rfl

@[simp] theorem on_reading (m : ReadM α) (s : Buffer × T) :
    Action.on (reading m) s = ((m.on s.1).1, ((m.on s.1).2, s.2)) := rfl

@[simp] theorem on_filling (f : T → T) (s : Buffer × T) :
    Action.on (filling f) s = (.ok ⟨⟩, (s.1, f s.2)) := rfl

@[simp] theorem on_into (part : T → U) (put : U → T → T) (m : FillM U α) (s : Buffer × T) :
    Action.on (into part put m) s =
      ((m.on (s.1, part s.2)).1,
        ((m.on (s.1, part s.2)).2.1, put (m.on (s.1, part s.2)).2.2 s.2)) := rfl

section Specs

open Parsing

variable {t t' : T} {d e : List UInt8}

def unreadInput (s : Buffer × T) : List UInt8 := s.1.peek

def Fails (m : ReadM α) (d : List UInt8) (x : ErrorCode) : Prop :=
  ∀ b tail, b.peek = d ++ tail → (m.on b).1 = .error x

theorem reads_decided {m : ReadM α} {a : α} (h : Reads Buffer.peek m d a) (t : T) :
    Decided unreadInput Prod.snd (reading m) t d (.ok a) t := by
  intro s tail hs ht
  obtain ⟨h₁, h₂⟩ := h s.1 tail hs
  exact ⟨h₁, ht, fun _ _ => h₂⟩

theorem Fails.decided {m : ReadM α} {x : ErrorCode} (h : Fails m d x) (t : T) :
    Decided unreadInput Prod.snd (reading m) t d (.error x) t :=
  fun s tail hs ht => ⟨h s.1 tail hs, ht, fun _ hr => nomatch hr⟩

theorem filling_decided (f : T → T) (t : T) :
    Decided unreadInput Prod.snd (filling f) t [] (.ok ⟨⟩) (f t) :=
  fun _ _ hs ht => ⟨rfl, congrArg f ht, fun _ _ => hs⟩

theorem decided_into {part : T → U} {put : U → T → T} {m : FillM U α} {r : Except ErrorCode α}
    {u' : U} (h : Decided unreadInput Prod.snd m (part t) d r u') :
    Decided unreadInput Prod.snd (into part put m) t d r (put u' t) := by
  intro s tail hs ht
  subst ht
  obtain ⟨h₁, h₂, h₃⟩ := h (s.1, part s.2) tail hs rfl
  rw [on_into]
  exact ⟨h₁, congrArg (fun u => put u s.2) h₂, h₃⟩

theorem local_into {part : T → U} {put : U → T → T} {m : FillM U α}
    (h : Local unreadInput Prod.snd m (part t) d) :
    Local unreadInput Prod.snd (into part put m) t d := by
  obtain ⟨r, u', h⟩ := h
  exact ⟨r, _, decided_into h⟩

theorem sound_reading {m : ReadM α} {P : α → List UInt8 → Prop} (h : Sound Buffer.peek m P) :
    Sound unreadInput (reading (T := T) m) P := by
  intro s a ha
  exact h s.1 a ha

theorem sound_into {part : T → U} {put : U → T → T} {m : FillM U α}
    {P : α → List UInt8 → Prop} (h : Sound unreadInput m P) :
    Sound unreadInput (into part put m) P :=
  fun s a ha => h (s.1, part s.2) a ha

def Bufferless (m : FillM T α) : Prop := ∀ t, ∃ r t', ∀ b : Buffer, m.on (b, t) = (r, (b, t'))

theorem bufferless_pure (a : α) : Bufferless (pure a : FillM T α) := fun t => ⟨.ok a, t, fun _ => rfl⟩

theorem bufferless_throw (x : ErrorCode) : Bufferless (throw x : FillM T α) :=
  fun t => ⟨.error x, t, fun _ => rfl⟩

theorem bufferless_filling (f : T → T) : Bufferless (filling f) :=
  fun t => ⟨.ok ⟨⟩, f t, fun _ => rfl⟩

theorem Bufferless.bind {β : Type} {m : FillM T α} {f : α → FillM T β} (hm : Bufferless m)
    (hf : ∀ a, Bufferless (f a)) : Bufferless (m >>= f) := by
  intro t
  obtain ⟨r, t', hm⟩ := hm t
  cases r with
  | error x => exact ⟨.error x, t', fun b => by rw [Action.on_bind, hm b]⟩
  | ok a =>
    obtain ⟨r, t'', hf⟩ := hf a t'
    exact ⟨r, t'', fun b => by rw [Action.on_bind, hm b]; exact hf b⟩

/-- What is looked up in the output is known without the buffer. -/
theorem bufferless_get {f : Buffer × T → FillM T α} (hsame : ∀ b b' t, f (b, t) = f (b', t))
    (hf : ∀ s, Bufferless (f s)) : Bufferless (get >>= f) := by
  intro t
  obtain ⟨r, t', hf⟩ := hf (.new, t) t
  refine ⟨r, t', fun b => ?_⟩
  rw [Action.on_bind, Action.on_get]
  dsimp only
  rw [hsame b .new t]
  exact hf b

theorem Bufferless.local_nil {m : FillM T α} (h : Bufferless m) (t : T) :
    Local unreadInput Prod.snd m t [] := by
  obtain ⟨r, t', h⟩ := h t
  refine ⟨r, t', ?_⟩
  rintro ⟨b, u⟩ tail hs hu
  cases (hu : u = t)
  rw [h b]
  exact ⟨rfl, rfl, fun _ _ => hs⟩

theorem Bufferless.sound {m : FillM T α} (h : Bufferless m) :
    Sound unreadInput m (fun _ d => d = []) := by
  rintro ⟨b, t⟩ a -
  obtain ⟨r, t', h⟩ := h t
  rw [h b]
  exact ⟨[], rfl, rfl⟩

theorem on_filling_then (f : T → T) (k : Unit → FillM T α) (s : Buffer × T) :
    Action.on (filling f >>= k) s = (k ()).on (s.1, f s.2) := rfl

/-- A read that was followed by something that returned has consumed some `d`. -/
theorem reading_then_ok {β : Type} {m : ReadM α} {P : α → List UInt8 → Prop}
    (hm : Sound Buffer.peek m P) {k : α → FillM T β} {s : Buffer × T} {c : β}
    (h : (Action.on (reading m >>= k) s).1 = .ok c) :
    ∃ a b d, s.1.peek = d ++ Buffer.peek b ∧ P a d ∧
      Action.on (reading m >>= k) s = (k a).on (b, s.2) := by
  rw [Action.on_bind, on_reading] at h ⊢
  have hsound := hm s.1
  generalize m.on s.1 = r at h hsound ⊢
  obtain ⟨r, b⟩ := r
  cases r with
  | error e => cases h
  | ok a =>
    obtain ⟨d, hd, hP⟩ := hsound a rfl
    exact ⟨a, b, d, hd, hP, rfl⟩

end Specs

end LibRtmp
