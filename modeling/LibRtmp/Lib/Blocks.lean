import Mathlib.Tactic.Common

/-! A string cut into blocks of one size, and what is left behind them. -/
namespace Blocks

variable {α : Type} {w : Nat} {xs ys : List α}

def firstBlocks (w : Nat) : Nat → List α → List (List α)
  | 0, _ => []
  | n + 1, xs => xs.take w :: firstBlocks w n (xs.drop w)

def blocks (w : Nat) (xs : List α) : List (List α) := firstBlocks w (xs.length / w) xs

def rest (w : Nat) (xs : List α) : List α := xs.drop (w * (xs.length / w))

theorem rest_length (w : Nat) (xs : List α) : (rest w xs).length = xs.length % w := by
  rw [rest, List.length_drop]
  have := Nat.div_add_mod xs.length w
  omega

theorem blocks_short (h : xs.length < w) : blocks w xs = [] ∧ rest w xs = xs := by
  rw [blocks, rest, Nat.div_eq_of_lt h]
  exact ⟨rfl, rfl⟩

theorem blocks_long (hw : 0 < w) (h : w ≤ xs.length) :
    blocks w xs = xs.take w :: blocks w (xs.drop w) ∧ rest w xs = rest w (xs.drop w) := by
  have hcount : xs.length / w = (xs.drop w).length / w + 1 := by
    rw [List.length_drop, Nat.div_eq_sub_div hw h]
  constructor
  · rw [blocks, hcount]
    rfl
  · rw [rest, rest, hcount, List.drop_drop, Nat.mul_add, Nat.mul_one, Nat.add_comm]

/-- More input is cut where the first left off. -/
theorem blocks_append (hw : 0 < w) (xs ys : List α) :
    blocks w (xs ++ ys) = blocks w xs ++ blocks w (rest w xs ++ ys) ∧
      rest w (xs ++ ys) = rest w (rest w xs ++ ys) := by
  induction h : xs.length using Nat.strongRecOn generalizing xs with
  | ind n ih =>
    by_cases hshort : xs.length < w
    · obtain ⟨hb, hr⟩ := blocks_short hshort
      rw [hb, hr]
      exact ⟨rfl, rfl⟩
    · have hlong : w ≤ xs.length := Nat.not_lt.mp hshort
      obtain ⟨hb, hr⟩ := blocks_long hw hlong
      obtain ⟨hb', hr'⟩ := @blocks_long α w (xs ++ ys) hw (by rw [List.length_append]; omega)
      obtain ⟨hbs, hrs⟩ := ih (xs.drop w).length (by rw [List.length_drop]; omega) (xs.drop w) rfl
      rw [List.take_append_of_le_length hlong, List.drop_append_of_le_length hlong] at hb'
      rw [List.drop_append_of_le_length hlong] at hr'
      rw [hb', hr', hb, hr, hbs, hrs]
      exact ⟨rfl, rfl⟩

/-- Input that does not fill the block is added to the rest. -/
theorem blocks_append_short (hw : 0 < w) (h : (rest w xs).length + ys.length < w) :
    blocks w (xs ++ ys) = blocks w xs ∧ rest w (xs ++ ys) = rest w xs ++ ys := by
  obtain ⟨hb, hr⟩ := blocks_append hw xs ys
  obtain ⟨hshort, hleft⟩ := @blocks_short α w (rest w xs ++ ys) (by rwa [List.length_append])
  rw [hb, hr, hshort, hleft, List.append_nil]
  exact ⟨rfl, rfl⟩

/-- Input that fills the block gives one more. -/
theorem blocks_append_full (hw : 0 < w) (h : (rest w xs).length + ys.length = w) :
    blocks w (xs ++ ys) = blocks w xs ++ [rest w xs ++ ys] ∧ rest w (xs ++ ys) = [] := by
  obtain ⟨hb, hr⟩ := blocks_append hw xs ys
  have hlen : (rest w xs ++ ys).length = w := by rwa [List.length_append]
  obtain ⟨hlong, hleft⟩ := blocks_long hw (Nat.le_of_eq hlen.symm)
  have hnone : (rest w xs ++ ys).drop w = [] := List.drop_eq_nil_of_le (Nat.le_of_eq hlen)
  obtain ⟨hshort, hempty⟩ := @blocks_short α w [] hw
  rw [hnone, hshort, List.take_of_length_le (Nat.le_of_eq hlen)] at hlong
  rw [hnone, hempty] at hleft
  rw [hb, hr, hlong, hleft]
  exact ⟨rfl, rfl⟩

end Blocks
