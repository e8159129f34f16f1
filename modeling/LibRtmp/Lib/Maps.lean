import Mathlib.Algebra.Ring.Nat
import Mathlib.Data.List.AList

namespace Maps

variable {κ α : Type}

def retain (p : κ → α → Bool) (m : AList (fun _ : κ => α)) : AList (fun _ : κ => α) :=
  ⟨m.entries.filter (fun e => p e.1 e.2), m.nodupKeys.sublist List.filter_sublist⟩

def mapValues (f : α → α) (m : AList (fun _ : κ => α)) : AList (fun _ : κ => α) :=
  ⟨m.entries.map (fun e => ⟨e.1, f e.2⟩), by
    have h := m.nodupKeys
    unfold List.NodupKeys List.keys at h ⊢
    rwa [List.map_map]⟩

def total (w : κ → α → Nat) (m : AList (fun _ : κ => α)) : Nat :=
  (m.entries.map (fun e => w e.1 e.2)).sum

theorem length_eq_total (m : AList (fun _ : κ => α)) :
    m.entries.length = total (fun _ _ => 1) m := by
  simp [total]

variable [DecidableEq κ]

theorem lookup_iff_mem {m : AList (fun _ : κ => α)} {k : κ} {v : α} :
    m.lookup k = some v ↔ (⟨k, v⟩ : Sigma (fun _ : κ => α)) ∈ m.entries :=
  AList.mem_lookup_iff

theorem lookup_retain (p : κ → α → Bool) (m : AList (fun _ : κ => α)) (k : κ) (v : α) :
    (retain p m).lookup k = some v ↔ m.lookup k = some v ∧ p k v = true := by
  rw [lookup_iff_mem, lookup_iff_mem]
  exact List.mem_filter

theorem lookup_map_values (f : α → α) (m : AList (fun _ : κ => α)) (k : κ) (v : α) :
    (mapValues f m).lookup k = some v ↔ ∃ w, m.lookup k = some w ∧ f w = v := by
  rw [lookup_iff_mem]
  change _ ∈ m.entries.map _ ↔ _
  rw [List.mem_map]
  constructor
  · rintro ⟨e, he, heq⟩
    cases heq
    exact ⟨e.2, lookup_iff_mem.mpr he, rfl⟩
  · rintro ⟨w, hw, rfl⟩
    exact ⟨⟨k, w⟩, lookup_iff_mem.mp hw, rfl⟩

theorem lookup_erase (m : AList (fun _ : κ => α)) (k j : κ) (v : α) :
    (m.erase k).lookup j = some v ↔ j ≠ k ∧ m.lookup j = some v := by
  by_cases h : j = k
  · subst h
    simp
  · simp [AList.lookup_erase_ne h, h]

theorem lookup_insert (m : AList (fun _ : κ => α)) (k j : κ) (v w : α) :
    (m.insert k w).lookup j = some v ↔ (j = k ∧ w = v) ∨ (j ≠ k ∧ m.lookup j = some v) := by
  by_cases h : j = k
  · subst h
    simp
  · simp [AList.lookup_insert_ne h, h]

theorem erase_of_none {m : AList (fun _ : κ => α)} {k : κ} (h : m.lookup k = none) :
    m.erase k = m :=
  AList.ext (List.kerase_of_notMem_keys (AList.lookup_eq_none.mp h))

theorem eq_empty_of_lookup {m : AList (fun _ : κ => α)} (h : ∀ k, m.lookup k = none) : m = ∅ := by
  apply AList.ext
  cases hm : m.entries with
  | nil => rfl
  | cons e entries =>
    have he : m.lookup e.1 = some e.2 := lookup_iff_mem.mpr (hm ▸ List.mem_cons_self)
    rw [h] at he
    cases he

theorem erase_insert (m : AList (fun _ : κ => α)) (k : κ) (v : α) :
    (m.insert k v).erase k = m.erase k :=
  AList.ext (List.kerase_cons_eq rfl)

theorem total_erase (w : κ → α → Nat) {m : AList (fun _ : κ => α)} {k : κ} {v : α}
    (h : m.lookup k = some v) : total w (m.erase k) + w k v = total w m := by
  have hk : k ∈ m.entries.keys := AList.lookup_isSome.mp (by rw [h]; rfl)
  obtain ⟨u, l₁, l₂, -, heq, herase⟩ := List.exists_of_kerase hk
  have hu : m.lookup k = some u := lookup_iff_mem.mpr (by rw [heq]; simp)
  rw [h] at hu
  cases hu
  unfold total
  change ((List.kerase k m.entries).map _).sum + _ = _
  rw [herase, heq]
  simp only [List.map_append, List.map_cons, List.sum_append, List.sum_cons]
  omega

theorem total_erase_le (w : κ → α → Nat) (m : AList (fun _ : κ => α)) (k : κ) :
    total w (m.erase k) ≤ total w m := by
  cases h : m.lookup k with
  | none => rw [erase_of_none h]
  | some v => exact Nat.le.intro (total_erase w h)

theorem total_insert (w : κ → α → Nat) (m : AList (fun _ : κ => α)) (k : κ) (v : α) :
    total w (m.insert k v) = total w (m.erase k) + w k v :=
  Nat.add_comm ..

end Maps
