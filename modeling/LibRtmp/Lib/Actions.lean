import Mathlib.Logic.Relation
import Mathlib.Tactic.Common

namespace Actions

variable {ε σ τ A α β : Type}

/-- Code over a mutable state that may stop with an error; the state is kept either way. -/
abbrev Action (ε σ : Type) := ExceptT ε (StateM σ)

def Action.on (m : Action ε σ α) (s : σ) : Except ε α × σ := StateT.run (ExceptT.run m) s

def attempt (m : Action ε σ α) : Action ε σ (Except ε α) :=
  ExceptT.mk (fun s => (.ok (m.on s).1, (m.on s).2))

namespace Action

@[simp] theorem on_pure (a : α) (s : σ) : on (pure a : Action ε σ α) s = (.ok a, s) := rfl

@[simp] theorem on_throw (e : ε) (s : σ) : on (throw e : Action ε σ α) s = (.error e, s) := rfl

@[simp] theorem on_get (s : σ) : on (get : Action ε σ σ) s = (.ok s, s) := rfl

@[simp] theorem on_modify (f : σ → σ) (s : σ) :
    on (modify f : Action ε σ PUnit) s = (.ok ⟨⟩, f s) := rfl

@[simp] theorem on_modify_get (f : σ → α × σ) (s : σ) :
    on (modifyGet f : Action ε σ α) s = (.ok (f s).1, (f s).2) := rfl

@[simp] theorem on_attempt (m : Action ε σ α) (s : σ) :
    on (attempt m) s = (.ok (m.on s).1, (m.on s).2) := rfl

theorem on_bind (m : Action ε σ α) (f : α → Action ε σ β) (s : σ) :
    on (m >>= f) s =
      match on m s with
      | (.ok a, s) => on (f a) s
      | (.error e, s) => (.error e, s) := by
  unfold on
  rw [ExceptT.run_bind, StateT.run_bind]
  generalize StateT.run (ExceptT.run m) s = r
  obtain ⟨r, s⟩ := r
  cases r <;> rfl

/-- If both actions in a row return, so does the first. -/
theorem on_bind_ok {m : Action ε σ α} {f : α → Action ε σ β} {s t : σ} {b : β}
    (h : on (m >>= f) s = (.ok b, t)) : ∃ a u, on m s = (.ok a, u) ∧ on (f a) u = (.ok b, t) := by
  rw [on_bind] at h
  generalize on m s = r at h
  obtain ⟨r, u⟩ := r
  cases r with
  | error e => cases h
  | ok a => exact ⟨a, u, rfl, h⟩

end Action

section Moves

variable {abs : σ → A} {step : A → A → Prop} {m : Action ε σ α} {s : σ} {Q Q' : α → σ → Prop}

/-- Seen through `abs`, the action runs along `step`, and `Q` holds of what it returns. -/
structure Moves (abs : σ → A) (step : A → A → Prop) (m : Action ε σ α) (s : σ)
    (Q : α → σ → Prop) : Prop where
  path : Relation.ReflTransGen step (abs s) (abs (m.on s).2)
  post : ∀ a, (m.on s).1 = .ok a → Q a (m.on s).2

theorem moves_pure {a : α} (h : Q a s) : Moves abs step (pure a : Action ε σ α) s Q :=
  ⟨.refl, fun _ hb => by cases hb; exact h⟩

theorem moves_throw (e : ε) : Moves abs step (throw e : Action ε σ α) s Q :=
  ⟨.refl, fun _ hb => by cases hb⟩

theorem moves_get {Q : σ → σ → Prop} (h : Q s s) :
    Moves abs step (get : Action ε σ σ) s Q :=
  ⟨.refl, fun _ hb => by cases hb; exact h⟩

theorem moves_modify {f : σ → σ} {Q : PUnit → σ → Prop}
    (hp : Relation.ReflTransGen step (abs s) (abs (f s))) (h : Q ⟨⟩ (f s)) :
    Moves abs step (modify f : Action ε σ PUnit) s Q :=
  ⟨hp, fun _ hb => by cases hb; exact h⟩

theorem moves_modify_get {f : σ → α × σ}
    (hp : Relation.ReflTransGen step (abs s) (abs (f s).2)) (h : Q (f s).1 (f s).2) :
    Moves abs step (modifyGet f : Action ε σ α) s Q :=
  ⟨hp, fun _ hb => by cases hb; exact h⟩

theorem Moves.weaken (hm : Moves abs step m s Q) (h : ∀ a t, Q a t → Q' a t) :
    Moves abs step m s Q' :=
  ⟨hm.path, fun a ha => h a _ (hm.post a ha)⟩

theorem Moves.mono {step' : A → A → Prop} (hm : Moves abs step m s Q)
    (h : ∀ a b, step a b → step' a b) : Moves abs step' m s Q :=
  ⟨Relation.ReflTransGen.mono h _ _ hm.path, hm.post⟩

theorem moves_attempt {Q : Except ε α → σ → Prop} (hm : Moves abs step m s (fun _ _ => True))
    (h : Q (m.on s).1 (m.on s).2) : Moves abs step (attempt m) s Q :=
  ⟨hm.path, fun _ hb => by cases hb; exact h⟩

theorem moves_bind {f : α → Action ε σ β} {Q : β → σ → Prop}
    (hm : Moves abs step m s (fun a t => Moves abs step (f a) t Q)) :
    Moves abs step (m >>= f) s Q := by
  obtain ⟨hp, hq⟩ := hm
  constructor
  · rw [Action.on_bind]
    generalize m.on s = r at hp hq
    obtain ⟨r, t⟩ := r
    cases r with
    | error e => exact hp
    | ok a => exact hp.trans (hq a rfl).path
  · intro b hb
    rw [Action.on_bind] at hb ⊢
    generalize m.on s = r at hp hq hb
    obtain ⟨r, t⟩ := r
    cases r with
    | error e => cases hb
    | ok a => exact (hq a rfl).post b hb

/-- The same moves when another result is returned. -/
theorem Moves.returning (hm : Moves abs step m s Q) (b : β) :
    Moves abs step (m >>= fun _ => pure b) s (fun _ _ => True) :=
  moves_bind (hm.weaken fun _ _ _ => moves_pure trivial)

end Moves

section Projections

variable {view : σ → τ} {m : Action ε σ α} {m' : Action ε τ α}

/-- Through `view`, the action is another one: same result, same state left. -/
def Projects (view : σ → τ) (m : Action ε σ α) (m' : Action ε τ α) : Prop :=
  ∀ s, (m.on s).1 = (m'.on (view s)).1 ∧ view (m.on s).2 = (m'.on (view s)).2

theorem projects_pure (a : α) : Projects view (pure a : Action ε σ α) (pure a) :=
  fun _ => ⟨rfl, rfl⟩

theorem projects_throw (e : ε) : Projects view (throw e : Action ε σ α) (throw e) :=
  fun _ => ⟨rfl, rfl⟩

theorem Projects.bind {f : α → Action ε σ β} {f' : α → Action ε τ β} (hm : Projects view m m')
    (hf : ∀ a, Projects view (f a) (f' a)) : Projects view (m >>= f) (m' >>= f') := by
  intro s
  obtain ⟨hr, hs⟩ := hm s
  rw [Action.on_bind, Action.on_bind]
  generalize m.on s = r at hr hs
  generalize m'.on (view s) = r' at hr hs
  obtain ⟨r, t⟩ := r
  obtain ⟨r', t'⟩ := r'
  subst hr hs
  cases r with
  | error e => exact ⟨rfl, rfl⟩
  | ok a => exact hf a t

theorem projects_get {f : σ → Action ε σ α} {f' : τ → Action ε τ α}
    (h : ∀ s, Projects view (f s) (f' (view s))) : Projects view (get >>= f) (get >>= f') := by
  intro s
  rw [Action.on_bind, Action.on_bind]
  exact h s s

end Projections

end Actions
