import Mathlib.Data.Nat.Digits.Lemmas

/-!
# Numbers in a fixed number of digits

`Nat.digitsAppend b l n` are the `l` digits of `n` in base `b`, the lowest first, with zeros at the
end. The lowest digit can be split off, and a sequence of digits of a given length can be read back.
-/

namespace Radix

open Nat List

variable {b : ℕ}

theorem digitsAppend_zero_left (hb : 1 < b) {n : ℕ} (hn : n < b ^ 0) : digitsAppend b 0 n = [] :=
  eq_nil_of_length_eq_zero (length_digitsAppend hb 0 hn)

/-- The lowest digit, and the digits of the rest. -/
theorem digitsAppend_succ (hb : 1 < b) (l n : ℕ) :
    digitsAppend b (l + 1) n = n % b :: digitsAppend b l (n / b) := by
  rcases Nat.eq_zero_or_pos n with rfl | hn
  · simp [digitsAppend, replicate_succ]
  · have hlength : l + 1 - (digits b n).length = l - (digits b (n / b)).length := by
      rw [digits_def' hb hn, length_cons]
      omega
    rw [digitsAppend, hlength, digits_def' hb hn, cons_append, digitsAppend]

/-- The number of digits of a number that is not zero, without its lowest digit. -/
theorem length_digits_div (hb : 1 < b) (n : ℕ) :
    (digits b (n / b)).length = (digits b n).length - 1 := by
  rcases Nat.eq_zero_or_pos n with rfl | hn
  · simp
  · rw [digits_def' hb hn, length_cons, Nat.add_sub_cancel]

theorem take_digitsAppend (l n : ℕ) :
    (digitsAppend b l n).take (digits b n).length = digits b n := by
  rw [digitsAppend, take_left']
  rfl

/-- A number of several digits in base `b`, the highest first. -/
def ofBigEndian (b : ℕ) (ds : List ℕ) : ℕ := ds.foldl (fun n d => b * n + d) 0

theorem ofBigEndian_append_singleton (ds : List ℕ) (d : ℕ) :
    ofBigEndian b (ds ++ [d]) = b * ofBigEndian b ds + d := by
  rw [ofBigEndian, foldl_append]
  rfl

theorem ofBigEndian_eq_ofDigits (ds : List ℕ) : ofBigEndian b ds = ofDigits b ds.reverse := by
  induction ds using List.reverseRecOn with
  | nil => rfl
  | append_singleton ds d ih =>
    rw [ofBigEndian_append_singleton, ih, reverse_append, reverse_singleton,
      singleton_append, ofDigits_cons, Nat.add_comm]

theorem ofBigEndian_lt (hb : 1 < b) {ds : List ℕ} (h : ∀ d ∈ ds, d < b) :
    ofBigEndian b ds < b ^ ds.length := by
  have hlt := ofDigits_lt_base_pow_length (l := ds.reverse) hb fun d hd => h d (mem_reverse.1 hd)
  rwa [length_reverse, ← ofBigEndian_eq_ofDigits] at hlt

/-- Digits of the same number of places are determined by their number. -/
theorem ofBigEndian_inj (hb : 1 < b) {ds ds' : List ℕ} (hlength : ds.length = ds'.length)
    (h : ∀ d ∈ ds, d < b) (h' : ∀ d ∈ ds', d < b) (heq : ofBigEndian b ds = ofBigEndian b ds') :
    ds = ds' := by
  rw [ofBigEndian_eq_ofDigits, ofBigEndian_eq_ofDigits] at heq
  have hreverse : ds.reverse = ds'.reverse := ofDigits_inj_of_len_eq hb (by simpa using hlength)
    (fun d hd => h d (mem_reverse.1 hd)) (fun d hd => h' d (mem_reverse.1 hd)) heq
  exact reverse_injective hreverse

end Radix
