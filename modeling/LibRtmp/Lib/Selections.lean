import Mathlib.Tactic.Common

/-! Lists of chosen elements, compared with the list they are chosen from. -/
namespace Selections

variable {α β : Type} {l : List α} {p : α → Bool} {f g : α → β}

/-- Chosen elements, seen as all are, come in the order of the list. -/
theorem chosen_sublist (h : ∀ a ∈ l, p a = true → f a = g a) :
    ((l.filter p).map f).Sublist (l.map g) := by
  have hsame : (l.filter p).map f = (l.filter p).map g := by
    apply List.map_congr_left
    intro a ha
    obtain ⟨hmem, hp⟩ := List.mem_filter.mp ha
    exact h a hmem hp
  rw [hsame]
  exact List.filter_sublist.map g

/-- What every element like `b` is chosen as, and another one too, is chosen too often. -/
theorem chosen_not_sublist [DecidableEq β] {b : β}
    (hkept : ∀ a ∈ l, g a = b → p a = true ∧ f a = b) {x : α} (hx : x ∈ l) (hp : p x = true)
    (hf : f x = b) (hg : g x ≠ b) : ¬ ((l.filter p).map f).Sublist (l.map g) := by
  have hle : ∀ {l : List α}, (∀ a ∈ l, g a = b → p a = true ∧ f a = b) →
      (l.map g).count b ≤ ((l.filter p).map f).count b := by
    intro l h
    induction l with
    | nil => simp
    | cons a l ih =>
      obtain ⟨ha, hl⟩ := List.forall_mem_cons.mp h
      have htail := ih hl
      rw [List.map_cons, List.count_cons]
      by_cases hb : g a = b
      · obtain ⟨hpa, hfa⟩ := ha hb
        rw [List.filter_cons_of_pos hpa, List.map_cons, hfa, List.count_cons_self]
        simp only [hb, beq_self_eq_true, if_true]
        omega
      · have hmore : ((l.filter p).map f).count b ≤ (((a :: l).filter p).map f).count b :=
          (((List.sublist_cons_self a l).filter p).map f).count_le b
        simp only [beq_iff_eq, hb, if_false]
        omega
  intro hsub
  obtain ⟨before, after, rfl⟩ := List.append_of_mem hx
  have hfewer := hsub.count_le b
  obtain ⟨hbefore, hrest⟩ := List.forall_mem_append.mp hkept
  have hfront := hle hbefore
  have hback := hle (List.forall_mem_cons.mp hrest).2
  simp only [List.map_append, List.map_cons, List.filter_append, List.filter_cons_of_pos hp,
    List.count_append, List.count_cons, beq_iff_eq, hf, hg, if_true, if_false] at hfewer
  omega

end Selections
