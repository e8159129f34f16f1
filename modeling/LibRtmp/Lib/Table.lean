import Mathlib.Algebra.Ring.Nat
import Mathlib.Tactic.Common
import Mathlib.Algebra.Order.BigOperators.Group.List
import Mathlib.Algebra.Order.Group.Nat

namespace Table

variable {α : Type}

/-- A point update of a table moves a total by the change at that point. -/
theorem sum_map_set (g : α → Nat) (l : List α) {i : Nat} {a : α} (b : α) (h : l[i]? = some a) :
    ((l.set i b).map g).sum + g a = (l.map g).sum + g b := by
  induction l generalizing i with
  | nil => cases h
  | cons c l ih =>
    cases i with
    | zero =>
      cases h
      simp only [List.set_cons_zero, List.map_cons, List.sum_cons]
      omega
    | succ i =>
      have hl := ih h
      simp only [List.set_cons_succ, List.map_cons, List.sum_cons]
      omega

theorem count_eq_sum (p : α → Bool) (l : List α) :
    l.countP p = (l.map (fun a => (p a).toNat)).sum := by
  induction l with
  | nil => rfl
  | cons a l ih => cases hp : p a <;> simp [hp, ih, Nat.add_comm]

theorem count_set (p : α → Bool) (l : List α) {i : Nat} {a : α} (b : α) (h : l[i]? = some a) :
    (l.set i b).countP p + (p a).toNat = l.countP p + (p b).toNat := by
  rw [count_eq_sum, count_eq_sum]
  exact sum_map_set (fun a => (p a).toNat) l b h

theorem modify_set (f : α → α) (l : List α) (i : Nat) (a : α) :
    (l.set i a).modify i f = l.set i (f a) := by
  induction l generalizing i with
  | nil => cases i <;> rfl
  | cons b l ih =>
    cases i with
    | zero => rfl
    | succ i => simp [ih]

/-- A total with one summand that may differ from zero. -/
theorem sum_single {κ : Type} (g : κ → Nat) {k : κ} {ks : List κ} (hn : ks.Nodup) (h : k ∈ ks)
    (hz : ∀ i ∈ ks, i ≠ k → g i = 0) : (ks.map g).sum = g k := by
  induction ks with
  | nil => cases h
  | cons i ks ih =>
    obtain ⟨hi, hks⟩ := List.nodup_cons.mp hn
    simp only [List.map_cons, List.sum_cons]
    cases h with
    | head =>
      have hrest : (ks.map g).sum = 0 := by
        apply List.sum_eq_zero
        intro x hx
        obtain ⟨j, hj, rfl⟩ := List.mem_map.mp hx
        exact hz j (List.mem_cons_of_mem _ hj) (fun he => hi (he ▸ hj))
      rw [hrest, Nat.add_zero]
    | tail _ ht =>
      have hne : i ≠ k := fun he => hi (he ▸ ht)
      rw [hz i List.mem_cons_self hne, Nat.zero_add]
      exact ih hks ht (fun j hj => hz j (List.mem_cons_of_mem _ hj))

section Keys

variable {κ : Type} [DecidableEq κ]

theorem sum_update_absent (f : κ → α) (g : α → Nat) {k : κ} (v : α) {ks : List κ} (h : k ∉ ks) :
    (ks.map (fun i => g (Function.update f k v i))).sum = (ks.map (fun i => g (f i))).sum := by
  congr 1
  apply List.map_congr_left
  intro i hi
  rw [Function.update_of_ne]
  rintro rfl
  exact h hi

/-- Changing a function at one key moves its total over distinct keys by that change. -/
theorem sum_update (f : κ → α) (g : α → Nat) {k : κ} (v : α) {ks : List κ} (hn : ks.Nodup)
    (h : k ∈ ks) :
    (ks.map (fun i => g (Function.update f k v i))).sum + g (f k) =
      (ks.map (fun i => g (f i))).sum + g v := by
  induction ks with
  | nil => cases h
  | cons i ks ih =>
    obtain ⟨hi, hks⟩ := List.nodup_cons.mp hn
    simp only [List.map_cons, List.sum_cons]
    cases h with
    | head =>
      rw [sum_update_absent f g v hi, Function.update_self]
      omega
    | tail _ ht =>
      have hne : i ≠ k := by
        rintro rfl
        exact hi ht
      have hrec := ih hks ht
      rw [Function.update_of_ne hne]
      omega

end Keys

end Table
