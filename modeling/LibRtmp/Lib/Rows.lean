import Mathlib.Data.List.Forall2
import Mathlib.Logic.Relation

namespace Rows

open Relation (ReflTransGen)

variable {α β σ A : Type}

/-- The ends of a loop are related as those of each round are. -/
theorem foldl_rel {R : σ → σ → Prop} (hrefl : ∀ s, R s s)
    (htrans : ∀ {s t u}, R s t → R t u → R s u) {f : σ → β → σ} (h : ∀ s b, R s (f s b))
    (l : List β) (s : σ) : R s (l.foldl f s) := by
  induction l generalizing s with
  | nil => exact hrefl s
  | cons b l ih => exact htrans (h s b) (ih (f s b))

/-- A loop moves along `step` when each round does. -/
theorem foldl_path {step : A → A → Prop} {view : σ → A} {f : σ → β → σ}
    (h : ∀ s b, ReflTransGen step (view s) (view (f s b))) (l : List β) (s : σ) :
    ReflTransGen step (view s) (view (l.foldl f s)) :=
  foldl_rel (R := fun s t => ReflTransGen step (view s) (view t)) (fun _ => .refl) .trans h l s

/-- A loop only adds to a list when each round does. -/
theorem foldl_subset (view : σ → List α) {f : σ → β → σ} (h : ∀ s b, view s ⊆ view (f s b))
    (l : List β) (s : σ) : view s ⊆ view (l.foldl f s) :=
  foldl_rel (R := fun s t => view s ⊆ view t) (fun _ => List.Subset.refl _) List.Subset.trans h l s

/-- A loop leaves alone what each round does. -/
theorem foldl_same (view : σ → A) {f : σ → β → σ} (h : ∀ s b, view (f s b) = view s) (l : List β)
    (s : σ) : view (l.foldl f s) = view s :=
  foldl_rel (R := fun s t => view t = view s) (fun _ => rfl) (fun h h' => h'.trans h) h l s

section Pointwise

variable {R : α → α → Prop} {l l' l'' : List α} {a b : α} {i : Nat}

theorem forall₂_refl (hr : ∀ a, R a a) (l : List α) : List.Forall₂ R l l :=
  List.forall₂_same.mpr (fun a _ => hr a)

theorem forall₂_trans (ht : ∀ {a b c}, R a b → R b c → R a c) (h : List.Forall₂ R l l')
    (h' : List.Forall₂ R l' l'') : List.Forall₂ R l l'' := by
  induction h generalizing l'' with
  | nil => exact h'
  | cons hab _ ih =>
    cases h' with
    | cons hbc hrest => exact .cons (ht hab hbc) (ih hrest)

/-- Replacing one row leaves the others as they are. -/
theorem forall₂_set (hr : ∀ a, R a a) (hi : l[i]? = some a) (hab : R a b) :
    List.Forall₂ R l (l.set i b) := by
  induction l generalizing i with
  | nil => cases hi
  | cons x l ih =>
    cases i with
    | zero =>
      cases hi
      exact .cons hab (forall₂_refl hr l)
    | succ i => exact .cons (hr x) (ih hi)

theorem forall₂_row (h : List.Forall₂ R l l') (hi : l[i]? = some a) :
    ∃ b, l'[i]? = some b ∧ R a b := by
  induction h generalizing i with
  | nil => cases hi
  | cons hab _ ih =>
    cases i with
    | zero =>
      cases hi
      exact ⟨_, rfl, hab⟩
    | succ i => exact ih hi

theorem forall₂_row_back {S : α → β → Prop} {m : List β} {b : β} (h : List.Forall₂ S l m)
    (hi : m[i]? = some b) : ∃ a, l[i]? = some a ∧ S a b := by
  induction h generalizing i with
  | nil => cases hi
  | cons hab _ ih =>
    cases i with
    | zero =>
      cases hi
      exact ⟨_, rfl, hab⟩
    | succ i => exact ih hi

theorem forall₂_mem_back (h : List.Forall₂ R l l') (hb : b ∈ l') : ∃ a ∈ l, R a b := by
  obtain ⟨i, hi⟩ := List.mem_iff_getElem?.mp hb
  obtain ⟨a, ha, hab⟩ := forall₂_row_back h hi
  exact ⟨a, List.mem_of_getElem? ha, hab⟩

theorem forall₂_mem (h : List.Forall₂ R l l') (ha : a ∈ l) : ∃ b ∈ l', R a b := by
  obtain ⟨i, hi⟩ := List.mem_iff_getElem?.mp ha
  obtain ⟨b, hb, hab⟩ := forall₂_row h hi
  exact ⟨b, List.mem_of_getElem? hb, hab⟩

/-- A column that related rows share. -/
theorem forall₂_map_eq {f : α → β} (h : List.Forall₂ R l l') (hf : ∀ {a b}, R a b → f b = f a) :
    l'.map f = l.map f := by
  induction h with
  | nil => rfl
  | cons hab _ ih => rw [List.map_cons, List.map_cons, hf hab, ih]

end Pointwise

end Rows
