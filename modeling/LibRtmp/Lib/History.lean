import Mathlib.Tactic.Common

namespace History

variable {E : Type}

def Since (mark : E → List E → Prop) (keep : E → Prop) (h : List E) : Prop :=
  ∃ later e past, h = later ++ e :: past ∧ mark e past ∧ ∀ x ∈ later, keep x

variable {mark mark' : E → List E → Prop} {keep keep' : E → Prop} {h : List E} {e : E}

theorem since_now (hm : mark e h) : Since mark keep (e :: h) :=
  ⟨[], e, h, rfl, hm, by simp⟩

theorem Since.later (hs : Since mark keep h) (hk : keep e) : Since mark keep (e :: h) := by
  obtain ⟨later, m, past, rfl, hm, hl⟩ := hs
  refine ⟨e :: later, m, past, rfl, hm, ?_⟩
  intro x hx
  rcases List.mem_cons.mp hx with rfl | hx
  · exact hk
  · exact hl x hx

theorem since_cons : Since mark keep (e :: h) ↔ mark e h ∨ (keep e ∧ Since mark keep h) := by
  constructor
  · rintro ⟨later, m, past, heq, hm, hl⟩
    cases later with
    | nil =>
      cases heq
      exact .inl hm
    | cons x later =>
      cases heq
      exact .inr ⟨hl _ List.mem_cons_self, later, m, past, rfl, hm,
        fun y hy => hl y (List.mem_cons_of_mem _ hy)⟩
  · rintro (hm | ⟨hk, hs⟩)
    · exact since_now hm
    · exact hs.later hk

/-- Entries that are not marked leave the mark where it is. -/
theorem Since.back {later : List E} (hs : Since mark keep (later ++ h))
    (hm : ∀ e ∈ later, ∀ past, ¬ mark e past) : (∀ e ∈ later, keep e) ∧ Since mark keep h := by
  induction later with
  | nil => exact ⟨by simp, hs⟩
  | cons e later ih =>
    obtain hmark | ⟨hk, hs⟩ := since_cons.mp hs
    · exact absurd hmark (hm e List.mem_cons_self _)
    · obtain ⟨hl, hs⟩ := ih hs fun x hx => hm x (List.mem_cons_of_mem _ hx)
      exact ⟨List.forall_mem_cons.mpr ⟨hk, hl⟩, hs⟩

def Always (P : E → List E → Prop) : List E → Prop
  | [] => True
  | e :: h => P e h ∧ Always P h

variable {P : E → List E → Prop}

theorem Always.append {later : List E} (ha : Always P h)
    (hp : ∀ e ∈ later, ∀ past, P e past) : Always P (later ++ h) := by
  induction later with
  | nil => exact ha
  | cons e later ih =>
    exact ⟨hp e List.mem_cons_self _, ih fun x hx => hp x (List.mem_cons_of_mem _ hx)⟩

section Chronological

variable {events : List E} {i j : Nat}

/-- What always holds, read off a history in chronological order. -/
theorem Always.at (ha : Always P events.reverse) (he : events[j]? = some e) :
    P e (events.take j).reverse := by
  obtain ⟨hlt, rfl⟩ := List.getElem?_eq_some_iff.mp he
  have hsplit : events.reverse =
      (events.drop (j + 1)).reverse ++ events[j] :: (events.take j).reverse := by
    conv_lhs => rw [← List.take_append_drop j events, List.drop_eq_getElem_cons hlt]
    simp
  rw [hsplit] at ha
  generalize (events.drop (j + 1)).reverse = later at ha
  induction later with
  | nil => exact ha.1
  | cons x later ih => exact ih ha.2

theorem since_at (he : events[i]? = some e) (hij : i < j)
    (hm : mark e (events.take i).reverse)
    (hk : ∀ m x, i < m → m < j → events[m]? = some x → keep x) :
    Since mark keep (events.take j).reverse := by
  obtain ⟨hlt, rfl⟩ := List.getElem?_eq_some_iff.mp he
  have hsplit : events.take j = events.take i ++ events[i] :: (events.take j).drop (i + 1) := by
    conv_lhs => rw [← List.take_append_drop i (events.take j)]
    rw [List.take_take, Nat.min_eq_left (Nat.le_of_lt hij),
      List.drop_eq_getElem_cons (by rw [List.length_take]; omega), List.getElem_take]
  rw [hsplit, List.reverse_append, List.reverse_cons, List.append_assoc]
  refine ⟨_, events[i], _, rfl, hm, fun x hx => ?_⟩
  obtain ⟨m, hmem⟩ := List.mem_iff_getElem?.mp (List.mem_reverse.mp hx)
  rw [List.getElem?_drop, List.getElem?_take] at hmem
  split at hmem
  · rename_i hbelow
    exact hk _ x (by omega) hbelow hmem
  · cases hmem

end Chronological

end History
