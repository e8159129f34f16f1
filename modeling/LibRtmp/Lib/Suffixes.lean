import Mathlib.Tactic.Common

namespace Suffixes

variable {α : Type} {P : List α → Prop} {l r s : List α} {x : α}

structure Longest (P : List α → Prop) (l r : List α) : Prop where
  suffix : r <:+ l
  fits : P r
  longest : ∀ q, q <:+ l → P q → q <:+ r

theorem longest_self (h : P l) : Longest P l l := ⟨List.suffix_rfl, h, fun _ hq _ => hq⟩

/-- A list that does not fit has the same longest end as its tail. -/
theorem Longest.cons (h : Longest P l r) (hx : ¬ P (x :: l)) : Longest P (x :: l) r := by
  refine ⟨h.suffix.trans (List.suffix_cons x l), h.fits, ?_⟩
  intro q hq hfits
  rcases List.suffix_cons_iff.mp hq with rfl | hq
  · exact absurd hfits hx
  · exact h.longest q hq hfits

/-- When an element comes in, only the longest end so far has to be looked at. -/
theorem Longest.push (hinit : ∀ q, P (q ++ [x]) → P q) (h : Longest P l r)
    (hs : Longest (fun q => P (q ++ [x])) r s) : Longest P (l ++ [x]) (s ++ [x]) := by
  refine ⟨?_, hs.fits, ?_⟩
  · exact List.suffix_concat_iff.mpr (.inr ⟨s, rfl, hs.suffix.trans h.suffix⟩)
  · intro q hq hfits
    rcases List.suffix_concat_iff.mp hq with rfl | ⟨init, rfl, hl⟩
    · exact List.nil_suffix
    · have hkept : init <:+ r := h.longest init hl (hinit init hfits)
      exact List.suffix_concat_iff.mpr (.inr ⟨init, rfl, hs.longest init hkept hfits⟩)

end Suffixes
