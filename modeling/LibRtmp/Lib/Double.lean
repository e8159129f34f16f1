import Mathlib.Algebra.Group.Int.Defs
import Mathlib.Algebra.Ring.Nat
import Mathlib.Tactic.Common

/-! Double-precision numbers, given by their 64 bits. -/
namespace Double

def fraction (bits : Nat) : Nat := bits % 2 ^ 52

def exponent (bits : Nat) : Nat := bits / 2 ^ 52 % 2 ^ 11

def isNegative (bits : Nat) : Bool := bits / 2 ^ 63 % 2 == 1

def units (bits : Nat) : Option Int :=
  if exponent bits = 2 ^ 11 - 1 then none
  else
    let magnitude : Int :=
      if exponent bits = 0 then fraction bits
      else (2 ^ 52 + fraction bits) * 2 ^ (exponent bits - 1)
    some (if isNegative bits then -magnitude else magnitude)

def one : Int := 2 ^ 1074

theorem one_pos : 0 < one := Int.pow_pos (by decide)

def toInt? (bits : Nat) : Option Int :=
  match units bits with
  | none => none
  | some u => if u % one = 0 then some (u / one) else none

def toNatUpTo (bound : Nat) (bits : Nat) : Option Nat :=
  match units bits with
  | none => none
  | some u => if 0 ≤ u ∧ u ≤ bound * one then some (u / one).toNat else none

def truncate (low high : Int) (bits : Nat) : Int :=
  match units bits with
  | some u => max low (min high (u.tdiv one))
  | none =>
    if fraction bits ≠ 0 then 0
    else if isNegative bits then low
    else high

/-- An integer is its own integer part. -/
theorem to_nat_up_to_int {bound bits : Nat} {n : Int} (h : toInt? bits = some n) :
    toNatUpTo bound bits = if 0 ≤ n ∧ n ≤ bound then some n.toNat else none := by
  unfold toInt? at h
  unfold toNatUpTo
  split at h
  · cases h
  · rename_i u _
    split at h
    · rename_i hmod
      cases h
      have hone := one_pos
      have hexact : u / one * one = u := Int.ediv_mul_cancel (Int.dvd_of_emod_eq_zero hmod)
      have hlow : 0 ≤ u ↔ 0 ≤ u / one := (Int.ediv_nonneg_iff_of_pos hone).symm
      have hhigh : u ≤ bound * one ↔ u / one ≤ bound := by
        constructor
        · intro hle
          rw [← hexact] at hle
          exact Int.le_of_mul_le_mul_right hle hone
        · intro hle
          rw [← hexact]
          exact Int.mul_le_mul_of_nonneg_right hle (Int.le_of_lt hone)
      simp only [hlow, hhigh]
    · cases h

end Double
