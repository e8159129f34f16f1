import Mathlib.Algebra.Ring.Nat
import Mathlib.Tactic.Common

namespace Bytes

def toBe : Nat → Nat → List UInt8
  | 0, _ => []
  | w + 1, n => UInt8.ofNat (n / 256 ^ w) :: toBe w n

def ofBe (bs : List UInt8) : Nat := bs.foldl (fun acc b => acc * 256 + b.toNat) 0

def toLe (w n : Nat) : List UInt8 := (toBe w n).reverse

def ofLe (bs : List UInt8) : Nat := ofBe bs.reverse

@[simp] theorem to_be_length (w n : Nat) : (toBe w n).length = w := by
  induction w with
  | zero => rfl
  | succ w ih => simp [toBe, ih]

@[simp] theorem to_le_length (w n : Nat) : (toLe w n).length = w := by simp [toLe]

theorem fold_be (bs : List UInt8) (a : Nat) :
    bs.foldl (fun acc b => acc * 256 + b.toNat) a = a * 256 ^ bs.length + ofBe bs := by
  induction bs generalizing a with
  | nil => simp [ofBe]
  | cons b bs ih =>
    have hz := ih b.toNat
    simp only [ofBe, List.foldl_cons, List.length_cons, Nat.zero_mul, Nat.zero_add] at hz ⊢
    rw [ih, hz, Nat.pow_succ, Nat.add_mul, Nat.mul_assoc, Nat.mul_comm 256]
    simp only [ofBe]
    omega

theorem of_be_cons (b : UInt8) (bs : List UInt8) :
    ofBe (b :: bs) = b.toNat * 256 ^ bs.length + ofBe bs := by
  simpa [ofBe] using fold_be bs b.toNat

theorem of_be_lt (bs : List UInt8) : ofBe bs < 256 ^ bs.length := by
  induction bs with
  | nil => simp [ofBe]
  | cons b bs ih =>
    have hb : b.toNat < 256 := b.toNat_lt
    rw [of_be_cons, List.length_cons, Nat.pow_succ]
    calc b.toNat * 256 ^ bs.length + ofBe bs
        < b.toNat * 256 ^ bs.length + 256 ^ bs.length := by omega
      _ = (b.toNat + 1) * 256 ^ bs.length := by rw [Nat.add_mul, Nat.one_mul]
      _ ≤ 256 * 256 ^ bs.length := Nat.mul_le_mul_right _ hb
      _ = 256 ^ bs.length * 256 := Nat.mul_comm _ _

/-- Reading back a field keeps the low bytes of the value written. -/
theorem of_be_to_be (w n : Nat) : ofBe (toBe w n) = n % 256 ^ w := by
  induction w with
  | zero => simp [toBe, ofBe, Nat.mod_one]
  | succ w ih =>
    rw [toBe, of_be_cons, ih, to_be_length, Nat.pow_succ]
    have hm : (UInt8.ofNat (n / 256 ^ w)).toNat = n / 256 ^ w % 256 := by simp
    rw [hm, Nat.mod_mul, Nat.mul_comm, Nat.add_comm]

theorem of_be_to_be_lt {w n : Nat} (h : n < 256 ^ w) : ofBe (toBe w n) = n := by
  rw [of_be_to_be, Nat.mod_eq_of_lt h]

/-- Only the low bytes of the value matter. -/
theorem to_be_add_mul (w k n : Nat) : toBe w (k * 256 ^ w + n) = toBe w n := by
  induction w generalizing k with
  | zero => rfl
  | succ w ih =>
    have hpos : 0 < 256 ^ w := Nat.pow_pos (by omega)
    have hk : k * 256 ^ (w + 1) = 256 ^ w * (k * 256) := by
      rw [Nat.pow_succ, Nat.mul_left_comm]
    rw [toBe, toBe, hk, Nat.mul_add_div hpos, Nat.mul_comm (256 ^ w), ih]
    congr 1
    refine UInt8.toNat_inj.mp ?_
    rw [UInt8.toNat_ofNat', UInt8.toNat_ofNat']
    omega

theorem to_be_mod (w n : Nat) : toBe w (n % 256 ^ w) = toBe w n := by
  have hlow := to_be_add_mul w (n / 256 ^ w) (n % 256 ^ w)
  rw [Nat.mul_comm, Nat.div_add_mod] at hlow
  exact hlow.symm

/-- Bytes are the field of their value. -/
theorem to_be_of_be (bs : List UInt8) : toBe bs.length (ofBe bs) = bs := by
  induction bs with
  | nil => rfl
  | cons b bs ih =>
    have hlt := of_be_lt bs
    have hpos : 0 < 256 ^ bs.length := Nat.pow_pos (by omega)
    have hdiv : (b.toNat * 256 ^ bs.length + ofBe bs) / 256 ^ bs.length = b.toNat := by
      rw [Nat.mul_comm, Nat.mul_add_div hpos, Nat.div_eq_of_lt hlt, Nat.add_zero]
    rw [List.length_cons, of_be_cons, toBe, hdiv, to_be_add_mul, ih]
    simp

theorem of_le_to_le_lt {w n : Nat} (h : n < 256 ^ w) : ofLe (toLe w n) = n := by
  rw [ofLe, toLe, List.reverse_reverse, of_be_to_be_lt h]

end Bytes
