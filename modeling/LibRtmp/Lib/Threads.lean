import Mathlib.Logic.Function.Basic
import Mathlib.Data.List.Nodup
import Mathlib.Tactic.Common

structure Cell (α : Type) where
  item : α
  next : Option Nat

/-- Lists threaded through one vector of cells, each known by its first and its last cell. -/
structure Threads (α : Type) where
  cells : List (Cell α) := []
  lists : List (Option (Nat × Nat)) := []
  owners : List Nat := []

namespace Threads

variable {α : Type}

def push (t : Threads α) (owner : Nat) (a : α) : Threads α :=
  let index := t.cells.length
  let cells := t.cells ++ [⟨a, none⟩]
  let lists := t.lists ++ List.replicate (owner + 1 - t.lists.length) none
  match lists.getD owner none with
  | some (head, tail) =>
    { t with
      cells := cells.modify tail (fun c => { c with next := some index })
      lists := lists.set owner (some (head, index)) }
  | none =>
    { cells
      lists := lists.set owner (some (index, index))
      owners := t.owners ++ [owner] }

def walk (cells : List (Cell α)) : Nat → Option Nat → List α
  | 0, _ => []
  | _, none => []
  | fuel + 1, some i =>
    match cells[i]? with
    | none => []
    | some c => c.item :: walk cells fuel c.next

def items (t : Threads α) (owner : Nat) : List α :=
  walk t.cells t.cells.length ((t.lists.getD owner none).map Prod.fst)

inductive Linked (cells : List (Cell α)) : List Nat → List α → Prop where
  | nil : Linked cells [] []
  | cons {i : Nat} {is : List Nat} {a : α} {as : List α} (h : cells[i]? = some ⟨a, is.head?⟩)
    (tail : Linked cells is as) : Linked cells (i :: is) (a :: as)

structure Holds (t : Threads α) (idx : Nat → List Nat) (view : Nat → List α) : Prop where
  linked : ∀ o, Linked t.cells (idx o) (view o)
  ends : ∀ o, t.lists.getD o none = (idx o).head?.map (fun i => (i, (idx o).getLast?.getD i))
  apart : ∀ o o' i, i ∈ idx o → i ∈ idx o' → o = o'
  nodup : ∀ o, (idx o).Nodup
  owned : ∀ o, o ∈ t.owners ↔ view o ≠ []
  once : t.owners.Nodup

def Stores (t : Threads α) (view : Nat → List α) : Prop := ∃ idx, t.Holds idx view

section Linked

variable {cells : List (Cell α)} {is : List Nat} {as : List α}

theorem Linked.lt (h : Linked cells is as) : ∀ i ∈ is, i < cells.length := by
  induction h with
  | nil => simp
  | cons h _ ih =>
    intro j hj
    rcases List.mem_cons.mp hj with rfl | hj
    · exact (List.getElem?_eq_some_iff.mp h).1
    · exact ih j hj

theorem Linked.length_eq (h : Linked cells is as) : is.length = as.length := by
  induction h with
  | nil => rfl
  | cons _ _ ih => rw [List.length_cons, List.length_cons, ih]

theorem Linked.walk {fuel : Nat} (h : Linked cells is as) (hfuel : is.length ≤ fuel) :
    walk cells fuel is.head? = as := by
  induction h generalizing fuel with
  | nil => cases fuel <;> rfl
  | cons h _ ih =>
    cases fuel with
    | zero => simp at hfuel
    | succ fuel =>
      rw [List.head?_cons, Threads.walk, h]
      exact congrArg _ (ih (by simpa using hfuel))

/-- A list is the same wherever its cells are. -/
theorem Linked.congr {cells' : List (Cell α)} (h : Linked cells is as)
    (heq : ∀ i ∈ is, cells'[i]? = cells[i]?) : Linked cells' is as := by
  induction h with
  | nil => exact .nil
  | cons h _ ih =>
    exact .cons ((heq _ List.mem_cons_self).trans h) (ih fun i hi => heq i (List.mem_cons_of_mem _ hi))

/-- Appending behind the last cell of a list. -/
theorem Linked.extend {cells' : List (Cell α)} {n : Nat} {a : α} (h : Linked cells is as)
    (hnew : cells'[n]? = some ⟨a, none⟩)
    (hlast : ∀ i ∈ is.getLast?, ∀ c, cells[i]? = some c → cells'[i]? = some { c with next := some n })
    (hrest : ∀ i ∈ is, i ∉ is.getLast? → cells'[i]? = cells[i]?) (hnd : is.Nodup) :
    Linked cells' (is ++ [n]) (as ++ [a]) := by
  induction h with
  | nil => exact .cons hnew .nil
  | @cons i is b bs h tail ih =>
    cases is with
    | nil =>
      cases tail
      exact .cons (hlast i rfl _ h) (.cons hnew .nil)
    | cons j js =>
      have hi : i ∉ (i :: j :: js).getLast? := by
        rw [List.getLast?_cons_cons]
        intro hm
        exact (List.nodup_cons.mp hnd).1 (List.mem_of_mem_getLast? hm)
      refine .cons ((hrest i List.mem_cons_self hi).trans h) (ih ?_ ?_ (List.nodup_cons.mp hnd).2)
      · intro k hk
        exact hlast k (by rwa [List.getLast?_cons_cons])
      · intro k hk hkl
        exact hrest k (List.mem_cons_of_mem _ hk) (by rwa [List.getLast?_cons_cons])

end Linked

section Push

variable {t : Threads α} {idx : Nat → List Nat} {view : Nat → List α}

theorem getD_pad {β : Type} (l : List (Option β)) (n i : Nat) :
    (l ++ List.replicate n none).getD i none = l.getD i none := by
  simp only [List.getD_eq_getElem?_getD, List.getElem?_append, List.getElem?_replicate]
  split
  · rfl
  · rename_i hi
    rw [List.getElem?_eq_none (Nat.not_lt.mp hi)]
    split <;> rfl

theorem getD_set {β : Type} (l : List (Option β)) {i : Nat} (j : Nat) (v : Option β)
    (hi : i < l.length) : (l.set i v).getD j none = if j = i then v else l.getD j none := by
  simp only [List.getD_eq_getElem?_getD, List.getElem?_set]
  by_cases hj : j = i
  · subst hj
    simp [hi]
  · simp [hj, Ne.symm hj]

/-- What `push` does to the cells and the list ends, seen from outside. -/
theorem push_lists (t : Threads α) (o : Nat) (a : α) (o' : Nat) : (t.push o a).lists.getD o' none =
    if o' = o then some (((t.lists.getD o none).map Prod.fst).getD t.cells.length, t.cells.length)
    else t.lists.getD o' none := by
  have hlt : o < (t.lists ++ List.replicate (o + 1 - t.lists.length) none).length := by
    rw [List.length_append, List.length_replicate]
    omega
  unfold push
  dsimp only
  rw [getD_pad]
  cases hl : t.lists.getD o none with
  | none => rw [getD_set _ _ _ hlt, getD_pad]; rfl
  | some e => rw [getD_set _ _ _ hlt, getD_pad]; rfl

theorem push_new (t : Threads α) (o : Nat) (a : α)
    (hend : ∀ e, t.lists.getD o none = some e → e.2 < t.cells.length) :
    (t.push o a).cells[t.cells.length]? = some ⟨a, none⟩ := by
  unfold push
  dsimp only
  rw [getD_pad]
  cases hl : t.lists.getD o none with
  | none => simp
  | some e =>
    rw [List.getElem?_modify, List.getElem?_concat_length]
    simp [Nat.ne_of_lt (hend e hl)]

theorem push_cell (t : Threads α) (o : Nat) (a : α) {i : Nat} (hi : i < t.cells.length) :
    (t.push o a).cells[i]? = if (t.lists.getD o none).map Prod.snd = some i then
      t.cells[i]?.map (fun c => { c with next := some t.cells.length }) else t.cells[i]? := by
  unfold push
  dsimp only
  rw [getD_pad]
  cases hl : t.lists.getD o none with
  | none => simp [List.getElem?_append_left hi]
  | some e =>
    by_cases he : e.2 = i
    · simp [List.getElem?_append_left hi, he]
    · simp [List.getElem?_append_left hi, he]

theorem push_owners (t : Threads α) (o : Nat) (a : α) : (t.push o a).owners =
    if t.lists.getD o none = none then t.owners ++ [o] else t.owners := by
  unfold push
  dsimp only
  rw [getD_pad]
  cases hl : t.lists.getD o none with
  | none => rfl
  | some e => rfl

theorem Holds.empty_iff (h : t.Holds idx view) (o : Nat) :
    t.lists.getD o none = none ↔ view o = [] := by
  have hlen := (h.linked o).length_eq
  rw [h.ends o, Option.map_eq_none_iff, List.head?_eq_none_iff, ← List.length_eq_zero_iff, hlen,
    List.length_eq_zero_iff]

theorem Holds.last (h : t.Holds idx view) (o : Nat) :
    (t.lists.getD o none).map Prod.snd = (idx o).getLast? := by
  rw [h.ends o]
  cases hidx : idx o with
  | nil => rfl
  | cons i is => simp [List.getLast?_cons]

theorem Holds.last_lt (h : t.Holds idx view) {o : Nat} {e : Nat × Nat}
    (he : t.lists.getD o none = some e) : e.2 < t.cells.length := by
  have hlast := h.last o
  rw [he, Option.map_some] at hlast
  exact (h.linked o).lt _ (List.mem_of_mem_getLast? hlast.symm)

/-- Only the last cell of the owner's list changes. -/
theorem Holds.push_cell_of (h : t.Holds idx view) (o : Nat) (a : α) {i o' : Nat} (hi : i ∈ idx o')
    (hlast : i ∉ (idx o).getLast?) : (t.push o a).cells[i]? = t.cells[i]? := by
  rw [push_cell t o a ((h.linked o').lt i hi), h.last o,
    if_neg (show ¬ (idx o).getLast? = some i from hlast)]

/-- A new cell is linked behind its owner's last one. -/
theorem Holds.push (h : t.Holds idx view) (o : Nat) (a : α) : (t.push o a).Holds
    (Function.update idx o (idx o ++ [t.cells.length]))
    (Function.update view o (view o ++ [a])) := by
  have hfresh : ∀ o', t.cells.length ∉ idx o' := fun o' hm =>
    Nat.lt_irrefl _ ((h.linked o').lt _ hm)
  have hmem : ∀ o' i, i ∈ Function.update idx o (idx o ++ [t.cells.length]) o' →
      i ∈ idx o' ∨ o' = o ∧ i = t.cells.length := by
    intro o' i hi
    by_cases ho : o' = o
    · subst ho
      rw [Function.update_self, List.mem_append, List.mem_singleton] at hi
      exact hi.imp_right fun hn => ⟨rfl, hn⟩
    · rw [Function.update_of_ne ho] at hi
      exact .inl hi
  constructor
  · intro o'
    by_cases ho : o' = o
    · subst ho
      rw [Function.update_self, Function.update_self]
      refine (h.linked o').extend (push_new t o' a fun e => h.last_lt) ?_ ?_ (h.nodup o')
      · intro i hi c hc
        have hlt := (h.linked o').lt i (List.mem_of_mem_getLast? hi)
        rw [push_cell t o' a hlt, h.last o',
          if_pos (show (idx o').getLast? = some i from hi), hc]
        rfl
      · exact fun i hi hlast => h.push_cell_of o' a hi hlast
    · rw [Function.update_of_ne ho, Function.update_of_ne ho]
      refine (h.linked o').congr fun i hi => h.push_cell_of o a hi fun hlast => ho ?_
      exact h.apart o' o i hi (List.mem_of_mem_getLast? hlast)
  · intro o'
    rw [push_lists]
    by_cases ho : o' = o
    · subst ho
      rw [if_pos rfl, Function.update_self, h.ends o']
      cases hidx : idx o' with
      | nil => rfl
      | cons i is =>
        have hlast : ((i :: is) ++ [t.cells.length]).getLast? = some t.cells.length :=
          List.getLast?_concat
        rw [hlast]
        rfl
    · rw [if_neg ho, Function.update_of_ne ho, h.ends o']
  · intro o₁ o₂ i h₁ h₂
    rcases hmem o₁ i h₁ with h₁ | ⟨rfl, rfl⟩
    · rcases hmem o₂ i h₂ with h₂ | ⟨_, rfl⟩
      · exact h.apart o₁ o₂ i h₁ h₂
      · exact absurd h₁ (hfresh o₁)
    · rcases hmem o₂ _ h₂ with h₂ | ⟨rfl, _⟩
      · exact absurd h₂ (hfresh o₂)
      · rfl
  · intro o'
    by_cases ho : o' = o
    · subst ho
      rw [Function.update_self]
      exact List.Nodup.append (h.nodup o') (List.nodup_singleton _) (by simpa using hfresh o')
    · rw [Function.update_of_ne ho]
      exact h.nodup o'
  · intro o'
    by_cases ho : o' = o
    · subst ho
      rw [push_owners, Function.update_self]
      split
      · simp
      · rename_i hl
        have hsome : view o' ≠ [] := fun hv => hl ((h.empty_iff o').mpr hv)
        simpa using (h.owned o').mpr hsome
    · rw [push_owners, Function.update_of_ne ho, ← h.owned o']
      split
      · simp [ho]
      · rfl
  · rw [push_owners]
    split
    · rename_i hl
      have hnew : o ∉ t.owners := fun hm => (h.owned o).mp hm ((h.empty_iff o).mp hl)
      exact List.Nodup.append h.once (List.nodup_singleton _) (by simpa using hnew)
    · exact h.once

theorem Holds.items (h : t.Holds idx view) (o : Nat) : t.items o = view o := by
  have hlen : (idx o).length ≤ t.cells.length := by
    have hsub : idx o ⊆ List.range t.cells.length := fun i hi =>
      List.mem_range.mpr ((h.linked o).lt i hi)
    simpa using (h.nodup o).length_le_of_subset hsub
  have hhead : (t.lists.getD o none).map Prod.fst = (idx o).head? := by
    rw [h.ends o]
    cases idx o <;> rfl
  rw [Threads.items, hhead]
  exact (h.linked o).walk hlen

theorem stores_empty : (Threads.mk [] [] [] : Threads α).Stores (fun _ => []) :=
  ⟨fun _ => [], fun _ => .nil, fun _ => rfl, by simp, by simp, by simp, by simp⟩

theorem Stores.push (h : t.Stores view) (o : Nat) (a : α) :
    (t.push o a).Stores (Function.update view o (view o ++ [a])) :=
  h.elim fun _ h => ⟨_, h.push o a⟩

theorem Stores.items (h : t.Stores view) (o : Nat) : t.items o = view o :=
  h.elim fun _ h => h.items o

theorem Stores.owned (h : t.Stores view) (o : Nat) : o ∈ t.owners ↔ view o ≠ [] :=
  h.elim fun _ h => h.owned o

theorem Stores.once (h : t.Stores view) : t.owners.Nodup := h.elim fun _ h => h.once

end Push

end Threads
