import Mathlib.Algebra.Ring.Nat
import Mathlib.Algebra.Ring.Int.Defs
import Mathlib.Tactic.Common

/-!
# Integers of 64 bits

The operations on `Int64` give the exact result reduced to 64 bits (`Int.bmod`), which is the exact
result itself if that one fits.
-/

namespace Wrapping

/-- The integer is one of 64 bits. -/
def Fits (n : Int) : Prop := -2 ^ 63 ≤ n ∧ n < 2 ^ 63

instance (n : Int) : Decidable (Fits n) := by
  unfold Fits
  infer_instance

theorem Fits.bmod_eq {n : Int} (h : Fits n) : n.bmod (2 ^ 64) = n := by
  obtain ⟨hlow, hhigh⟩ := h
  exact Int.bmod_eq_of_le (by omega) (by omega)

theorem fits_toInt (a : Int64) : Fits a.toInt := ⟨a.le_toInt, a.toInt_lt⟩

theorem toInt_ofNat (n : Nat) : (Int64.ofNat n).toInt = (n : Int).bmod (2 ^ 64) := by
  have hsize : Int64.size = 2 ^ 64 := by decide
  rw [Int64.toInt_ofNat', hsize]

theorem toInt_ofInt {n : Int} (h : Fits n) : (Int64.ofInt n).toInt = n :=
  Int64.toInt_ofInt_of_le h.1 h.2

theorem toInt_mul_of_fits {a b : Int64} (h : Fits (a.toInt * b.toInt)) :
    (a * b).toInt = a.toInt * b.toInt := by
  rw [Int64.toInt_mul, h.bmod_eq]

theorem toInt_add_of_fits {a b : Int64} (h : Fits (a.toInt + b.toInt)) :
    (a + b).toInt = a.toInt + b.toInt := by
  rw [Int64.toInt_add, h.bmod_eq]

/-- Two integers that differ by a multiple of `2 ^ 64` are the same in 64 bits. -/
theorem bmod_eq_bmod {m n : Int} (h : (2 ^ 64 : Int) ∣ m - n) :
    m.bmod (2 ^ 64) = n.bmod (2 ^ 64) := by
  obtain ⟨k, hk⟩ := h
  have hm : m = n + ((2 ^ 64 : Nat) : Int) * k := by omega
  rw [hm, Int.add_mul_bmod_self_left]

end Wrapping
