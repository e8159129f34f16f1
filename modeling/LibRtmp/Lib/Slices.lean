import Mathlib.Tactic.Common

namespace Slices

variable {α : Type}

def chunks (n : Nat) (l : List α) : List (List α) :=
  if _h : l = [] ∨ n = 0 then [] else l.take n :: chunks n (l.drop n)
termination_by l.length
decreasing_by
  rw [not_or] at _h
  have hpos := List.length_pos_iff.mpr _h.1
  rw [List.length_drop]
  omega

@[simp] theorem chunks_nil (n : Nat) : chunks n ([] : List α) = [] := by
  rw [chunks, dif_pos (.inl rfl)]

theorem chunks_cons {n : Nat} {l : List α} (hl : l ≠ []) (hn : 0 < n) :
    chunks n l = l.take n :: chunks n (l.drop n) := by
  rw [chunks, dif_neg]
  rintro (h | h)
  · exact hl h
  · omega

def joined (sep : List α) : List (List α) → List α
  | [] => []
  | [x] => x
  | x :: y :: xs => x ++ (sep ++ joined sep (y :: xs))

theorem joined_cons (sep x : List α) (xs : List (List α)) :
    joined sep (x :: xs) = x ++ (xs.map (fun y => sep ++ y)).flatten := by
  induction xs generalizing x with
  | nil => simp [joined]
  | cons y ys ih => rw [joined, ih, List.map_cons, List.flatten_cons, List.append_assoc]

/-- A string in pieces of `n`, read as its first piece and separated further ones. -/
theorem joined_chunks_flatten (sep : List α) {n : Nat} (hn : 0 < n) (l : List α) :
    joined sep (chunks n l) =
      l.take n ++ ((chunks n (l.drop n)).map (fun y => sep ++ y)).flatten := by
  by_cases hl : l = []
  · subst hl
    simp [joined]
  · rw [chunks_cons hl hn, joined_cons]

/-- Pieces longer than the string make no difference. -/
theorem chunks_min {n k : Nat} (hn : 0 < n) (hk : 0 < k) {l : List α} (hl : l.length ≤ k) :
    chunks (min n k) l = chunks n l := by
  by_cases hnil : l = []
  · subst hnil
    rw [chunks_nil, chunks_nil]
  rcases Nat.le_total n k with hle | hle
  · rw [Nat.min_eq_left hle]
  · rw [Nat.min_eq_right hle, chunks_cons hnil hk, chunks_cons hnil hn,
      List.take_of_length_le hl, List.take_of_length_le (Nat.le_trans hl hle),
      List.drop_of_length_le hl, List.drop_of_length_le (Nat.le_trans hl hle), chunks_nil,
      chunks_nil]

/-- A string in pieces of `n`: a short one is left whole. -/
theorem joined_chunks (sep : List α) {n : Nat} (hn : 0 < n) (l : List α) :
    joined sep (chunks n l) =
      if l.drop n = [] then l else l.take n ++ (sep ++ joined sep (chunks n (l.drop n))) := by
  by_cases hl : l = []
  · subst hl
    simp [joined]
  · rw [chunks_cons hl hn]
    split
    · rename_i hd
      rw [hd, chunks_nil, joined, List.take_of_length_le (List.drop_eq_nil_iff.mp hd)]
    · rename_i hd
      rw [chunks_cons hd hn]
      rfl

/-- Cutting costs one separator for every `n` elements after the first. -/
theorem joined_chunks_length (sep : List α) {n : Nat} (hn : 0 < n) (l : List α) :
    (joined sep (chunks n l)).length = l.length + (l.length - 1) / n * sep.length := by
  induction hlen : l.length using Nat.strongRecOn generalizing l with
  | ind k ih =>
    rw [joined_chunks sep hn]
    split
    · rename_i hd
      have hle := List.drop_eq_nil_iff.mp hd
      rw [Nat.div_eq_of_lt (by omega), Nat.zero_mul, hlen]
      rfl
    · rename_i hd
      have hlt : n < k := by
        rw [← hlen]
        exact Nat.lt_of_not_le (mt List.drop_eq_nil_iff.mpr hd)
      have hrec := ih (k - n) (by omega) (l.drop n) (by rw [List.length_drop, hlen])
      have hdiv : (k - 1) / n = (k - n - 1) / n + 1 := by
        rw [← Nat.add_div_right _ hn]
        congr 1
        omega
      rw [List.length_append, List.length_append, hrec, hdiv, List.length_take, hlen,
        Nat.min_eq_left (Nat.le_of_lt hlt), Nat.add_mul, Nat.one_mul]
      omega

section Overlay

variable {v d : List α} {a n : Nat}

def overlay (v : List α) (a : Nat) (d : List α) : List α := v.take a ++ d ++ v.drop (a + d.length)

theorem overlay_length (h : a + d.length ≤ v.length) : (overlay v a d).length = v.length := by
  simp only [overlay, List.length_append, List.length_take, List.length_drop]
  omega

theorem overlay_take (h : a + d.length ≤ v.length) (hn : n ≤ a) :
    (overlay v a d).take n = v.take n := by
  rw [overlay, List.append_assoc, List.take_append_of_le_length (by rw [List.length_take]; omega),
    List.take_take, Nat.min_eq_left hn]

theorem overlay_drop (h : a + d.length ≤ v.length) (hn : a + d.length ≤ n) :
    (overlay v a d).drop n = v.drop n := by
  have hfront : (v.take a ++ d).length = a + d.length := by
    rw [List.length_append, List.length_take]
    omega
  obtain ⟨k, rfl⟩ := Nat.exists_eq_add_of_le hn
  rw [overlay, ← List.drop_drop, List.drop_left' hfront, List.drop_drop]

theorem overlay_at (h : a + d.length ≤ v.length) : ((overlay v a d).drop a).take d.length = d := by
  have hfront : (v.take a).length = a := by
    rw [List.length_take]
    omega
  rw [overlay, List.append_assoc, List.drop_left' hfront, List.take_left]

end Overlay

end Slices
