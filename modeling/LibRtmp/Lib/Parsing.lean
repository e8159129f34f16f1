import LibRtmp.Lib.Actions

/-! Specifications of code that consumes the front of a list, or extends its end. -/
namespace Parsing

open Actions

variable {ε σ τ α β : Type} {view : σ → List τ}

/-- On input that starts with `d` the action returns `a` and leaves what follows `d`. -/
def Reads (view : σ → List τ) (m : Action ε σ α) (d : List τ) (a : α) : Prop :=
  ∀ s tail, view s = d ++ tail → (m.on s).1 = .ok a ∧ view (m.on s).2 = tail

/-- When the action returns `a`, it has consumed some `d` with `P a d` and nothing else. -/
def Sound (view : σ → List τ) (m : Action ε σ α) (P : α → List τ → Prop) : Prop :=
  ∀ s a, (m.on s).1 = .ok a → ∃ d, view s = d ++ view (m.on s).2 ∧ P a d

def Emits (view : σ → List τ) (m : Action ε σ α) (P : α → List τ → Prop) : Prop :=
  ∀ s a, (m.on s).1 = .ok a → ∃ d, view (m.on s).2 = view s ++ d ∧ P a d

/-- A sequence that returned has returned twice. -/
theorem bind_ok {m : Action ε σ α} {f : α → Action ε σ β} {s : σ} {b : β}
    (h : ((m >>= f).on s).1 = .ok b) : ∃ a, (m.on s).1 = .ok a ∧
      ((f a).on (m.on s).2).1 = .ok b ∧ ((m >>= f).on s).2 = ((f a).on (m.on s).2).2 := by
  obtain ⟨a, t, hm, hf⟩ := Action.on_bind_ok (Prod.ext h rfl)
  rw [hm]
  exact ⟨a, rfl, congrArg Prod.fst hf, (congrArg Prod.snd hf).symm⟩

section Reads

variable {m : Action ε σ α} {d e : List τ} {a : α} {b : β}

theorem reads_pure (a : α) : Reads view (pure a : Action ε σ α) [] a :=
  fun _ _ h => ⟨rfl, h⟩

theorem Reads.bind {f : α → Action ε σ β} (hm : Reads view m d a) (hf : Reads view (f a) e b) :
    Reads view (m >>= f) (d ++ e) b := by
  intro s tail h
  rw [List.append_assoc] at h
  obtain ⟨h₁, h₂⟩ := hm s (e ++ tail) h
  rw [Action.on_bind]
  generalize m.on s = r at h₁ h₂ ⊢
  obtain ⟨r, t⟩ := r
  subst h₁
  exact hf t tail h₂

/-- What comes after a read starts behind the input it consumed. -/
theorem Reads.then_on (hm : Reads view m d a) (f : α → Action ε σ β) {s : σ} {tail : List τ}
    (hs : view s = d ++ tail) : ∃ t, view t = tail ∧ (m >>= f).on s = (f a).on t := by
  obtain ⟨h₁, h₂⟩ := hm s tail hs
  refine ⟨(m.on s).2, h₂, ?_⟩
  rw [Action.on_bind]
  generalize m.on s = r at h₁ ⊢
  obtain ⟨r, t⟩ := r
  subst h₁
  rfl

/-- The same input is consumed when something else is made of it. -/
theorem Reads.map (hm : Reads view m d a) (f : α → β) :
    Reads view (m >>= fun a => pure (f a)) d (f a) := by
  have h := hm.bind (f := fun a => pure (f a)) (reads_pure (f a))
  rwa [List.append_nil] at h

/-- What an action reads decides how much of the input it consumes. -/
theorem Reads.unique {d' : List τ} {a' : α} (h : Reads view m d a) (h' : Reads view m d' a') {s : σ}
    {tail tail' : List τ} (hs : view s = d ++ tail) (hs' : view s = d' ++ tail') :
    d' = d ∧ tail' = tail := by
  have htail : tail' = tail := (h' s tail' hs').2.symm.trans (h s tail hs).2
  subst htail
  exact ⟨List.append_cancel_right (hs'.symm.trans hs), rfl⟩

end Reads

section Sound

variable {m : Action ε σ α} {P : α → List τ → Prop} {Q : β → List τ → Prop}

theorem sound_pure {a : α} (h : P a []) : Sound view (pure a : Action ε σ α) P := by
  rintro s b ⟨⟩
  exact ⟨[], rfl, h⟩

theorem sound_throw (e : ε) : Sound view (throw e : Action ε σ α) P := by
  rintro s b ⟨⟩

theorem Sound.bind {f : α → Action ε σ β} (hm : Sound view m P)
    (hf : ∀ a d, P a d → Sound view (f a) (fun b e => Q b (d ++ e))) :
    Sound view (m >>= f) Q := by
  intro s b h
  obtain ⟨a, h₁, h₂, heq⟩ := bind_ok h
  obtain ⟨d, hd, hp⟩ := hm s a h₁
  obtain ⟨e, he, hq⟩ := hf a d hp _ b h₂
  exact ⟨d ++ e, by rw [heq, List.append_assoc, ← he, hd], hq⟩

theorem Sound.mono {P' : α → List τ → Prop} (hm : Sound view m P) (h : ∀ a d, P a d → P' a d) :
    Sound view m P' := by
  intro s a ha
  obtain ⟨d, hd, hp⟩ := hm s a ha
  exact ⟨d, hd, h a d hp⟩

end Sound

section Emits

variable {m : Action ε σ α} {P : α → List τ → Prop} {Q : β → List τ → Prop}

theorem emits_pure {a : α} (h : P a []) : Emits view (pure a : Action ε σ α) P := by
  rintro s b ⟨⟩
  exact ⟨[], (List.append_nil _).symm, h⟩

theorem emits_throw (e : ε) : Emits view (throw e : Action ε σ α) P := by
  rintro s b ⟨⟩

theorem Emits.bind {f : α → Action ε σ β} (hm : Emits view m P)
    (hf : ∀ a d, P a d → Emits view (f a) (fun b e => Q b (d ++ e))) :
    Emits view (m >>= f) Q := by
  intro s b h
  obtain ⟨a, h₁, h₂, heq⟩ := bind_ok h
  obtain ⟨d, hd, hp⟩ := hm s a h₁
  obtain ⟨e, he, hq⟩ := hf a d hp _ b h₂
  exact ⟨d ++ e, by rw [heq, he, hd, List.append_assoc], hq⟩

theorem Emits.mono {P' : α → List τ → Prop} (hm : Emits view m P) (h : ∀ a d, P a d → P' a d) :
    Emits view m P' := by
  intro s a ha
  obtain ⟨d, hd, hp⟩ := hm s a ha
  exact ⟨d, hd, h a d hp⟩

end Emits

section Decided

variable {T : Type} {out : σ → T} {m : Action ε σ α} {d e : List τ} {t t' : T}

/-- On input that starts with `d` the action ends with `r`; if it returns, it has consumed `d`. -/
def Decided (view : σ → List τ) (out : σ → T) (m : Action ε σ α) (t : T) (d : List τ)
    (r : Except ε α) (t' : T) : Prop :=
  ∀ s tail, view s = d ++ tail → out s = t →
    (m.on s).1 = r ∧ out (m.on s).2 = t' ∧ ∀ a, r = .ok a → view (m.on s).2 = tail

/-- What the action does on input that starts with `d` does not depend on what follows. -/
def Local (view : σ → List τ) (out : σ → T) (m : Action ε σ α) (t : T) (d : List τ) : Prop :=
  ∃ r t', Decided view out m t d r t'

theorem decided_pure (a : α) (t : T) :
    Decided view out (pure a : Action ε σ α) t [] (.ok a) t :=
  fun _ _ hs ht => ⟨rfl, ht, fun _ _ => hs⟩

theorem decided_throw (x : ε) (t : T) (d : List τ) :
    Decided view out (throw x : Action ε σ α) t d (.error x) t :=
  fun _ _ _ ht => ⟨rfl, ht, fun _ h => nomatch h⟩

theorem Decided.then_ok {f : α → Action ε σ β} {a : α} {r : Except ε β} {t'' : T}
    (hm : Decided view out m t d (.ok a) t') (hf : Decided view out (f a) t' e r t'') :
    Decided view out (m >>= f) t (d ++ e) r t'' := by
  intro s tail hs ht
  rw [List.append_assoc] at hs
  obtain ⟨h₁, h₂, h₃⟩ := hm s (e ++ tail) hs ht
  have hview := h₃ a rfl
  rw [Action.on_bind]
  generalize m.on s = r' at h₁ h₂ hview ⊢
  obtain ⟨r', s'⟩ := r'
  subst h₁
  exact hf s' tail hview h₂

/-- A failure is not mended by what comes after it. -/
theorem Decided.then_error {f : α → Action ε σ β} {x : ε}
    (hm : Decided view out m t d (.error x) t') (e : List τ) :
    Decided view out (m >>= f) t (d ++ e) (.error x) t' := by
  intro s tail hs ht
  rw [List.append_assoc] at hs
  obtain ⟨h₁, h₂, -⟩ := hm s (e ++ tail) hs ht
  rw [Action.on_bind]
  generalize m.on s = r' at h₁ h₂ ⊢
  obtain ⟨r', s'⟩ := r'
  subst h₁
  exact ⟨rfl, h₂, fun _ h => nomatch h⟩

theorem Local.bind {f : α → Action ε σ β} (hm : Local view out m t d)
    (hf : ∀ a t', Local view out (f a) t' e) : Local view out (m >>= f) t (d ++ e) := by
  obtain ⟨r, t', hm⟩ := hm
  cases r with
  | error x => exact ⟨_, _, hm.then_error e⟩
  | ok a =>
    obtain ⟨r, t'', hf⟩ := hf a t'
    exact ⟨r, t'', hm.then_ok hf⟩

theorem Decided.bind_local {f : α → Action ε σ β} {a : α}
    (hm : Decided view out m t d (.ok a) t') (hf : Local view out (f a) t' e) :
    Local view out (m >>= f) t (d ++ e) := by
  obtain ⟨r, t'', hf⟩ := hf
  exact ⟨r, t'', hm.then_ok hf⟩

/-- A run shows what is decided. -/
theorem Local.decided_by (h : Local view out m t d) {s : σ} {tail : List τ}
    (hs : view s = d ++ tail) (ht : out s = t) :
    Decided view out m t d (m.on s).1 (out (m.on s).2) := by
  obtain ⟨r, t', h⟩ := h
  obtain ⟨rfl, rfl, -⟩ := h s tail hs ht
  exact h

/-- What the action consumes when it returns is some `d` with `P d`, whatever follows. -/
def Exact (view : σ → List τ) (out : σ → T) (m : Action ε σ α) (P : List τ → Prop) : Prop :=
  ∀ s a, (m.on s).1 = .ok a → ∃ d, P d ∧ view s = d ++ view (m.on s).2 ∧
    Decided view out m (out s) d (.ok a) (out (m.on s).2)

theorem Sound.exact {P : List τ → Prop} (hs : Sound view m (fun _ d => P d))
    (hl : ∀ d t, P d → Local view out m t d) : Exact view out m P := by
  intro s a ha
  obtain ⟨d, hd, hP⟩ := hs s a ha
  have hdecided := (hl d (out s) hP).decided_by hd rfl
  rw [ha] at hdecided
  exact ⟨d, hP, hd, hdecided⟩

end Decided

end Parsing
