import SharWorkflow.Arith.Radix

/-!
# Base 62

The ids of task specifications are hashes, written in base 62. `Encode` takes the bytes one after
the other. For each of them it multiplies the number so far by 256, adds the byte, and carries
through the digits from the lowest one on. It stops when there is nothing left to carry and all
digits that were set before are done, and remembers how many digits that were.

* `encodeByte`, `encode`: the loop over the digits, and the function.
* `encodeByte_digits`: **one byte**, for the digits of any number.
* `encode_baseSixtyTwo`: the digits of the number in base 62, without leading zeros, and without a
  carry that is lost, provided the digits suffice.
-/

namespace SharWorkflow

open Nat (digits digitsAppend)

/-- `Encoding`: the letters of the digits. -/
structure Encoding where
  encode : ℕ → UInt8

/-- `encodeStd`. -/
def encodeStd : String := "0123456789ABCDEFGHIJKLMNOPQRSTUVWXYZabcdefghijklmnopqrstuvwxyz"

/-- `NewEncoding`. -/
def newEncoding (encoder : String) : Encoding where
  encode i := (encoder.toList.map fun c => UInt8.ofNat c.toNat).getD i 0

/-- `StdEncoding`. -/
def stdEncoding : Encoding := newEncoding encodeStd

/-- The loop of `Encode` over the digits, for one byte. The digits are listed from the last position
of `dst` on, so the lowest one comes first. Besides the digits it returns their number `c` and what
is left of the carry `v`. -/
def encodeByte (rs : ℕ) : List ℕ → ℕ → ℕ → List ℕ × ℕ × ℕ
  | [], v, c => ([], c, v)
  | d :: ds, v, c =>
    if v ≠ 0 ∨ c < rs then
      let v := v + 256 * d
      let rest := encodeByte rs ds (v / 62) (c + 1)
      (v % 62 :: rest.1, rest.2)
    else (d :: ds, c, v)

/-- The state of the outer loop: the digits, from the last position of `dst` on, and how many of
them were set. -/
structure Digits62 where
  dst : List ℕ
  rs : ℕ

/-- One round of the outer loop. -/
def Digits62.next (s : Digits62) (b : UInt8) : Digits62 :=
  let r := encodeByte s.rs s.dst b.toNat 0
  ⟨r.1, r.2.1⟩

/-- What the round leaves of the carry. -/
def Digits62.lost (s : Digits62) (b : UInt8) : ℕ := (encodeByte s.rs s.dst b.toNat 0).2.2

/-- The outer loop. -/
def encodeDigits (cs : ℕ) (src : List UInt8) : Digits62 :=
  src.foldl Digits62.next ⟨List.replicate cs 0, 0⟩

/-- `Encode`, where `dst` has the length `cs`. -/
def Encoding.encodeBytes (enc : Encoding) (cs : ℕ) (src : List UInt8) : List UInt8 :=
  if src = [] then []
  else
    let s := encodeDigits cs src
    let dst := s.dst.map enc.encode
    if cs > s.rs then (dst.take s.rs).reverse else dst.reverse

/-- The number that the bytes stand for. -/
def bytesValue (src : List UInt8) : ℕ := Radix.ofBigEndian 256 (src.map UInt8.toNat)

/-! ### One byte -/

/-- **The loop over the digits.** From the digits of `n` it makes those of `256 * n + v`; what does
not fit is left in the carry, and all digits that are not leading zeros are counted. -/
theorem encodeByte_digits (rs cs n v c : ℕ) (hn : n < 62 ^ cs)
    (hrs : rs - c = (digits 62 n).length) : (encodeByte rs (digitsAppend 62 cs n) v c).1 =
        digitsAppend 62 cs ((256 * n + v) % 62 ^ cs) ∧
      (encodeByte rs (digitsAppend 62 cs n) v c).2.2 = (256 * n + v) / 62 ^ cs ∧
      (256 * n + v < 62 ^ cs →
        (encodeByte rs (digitsAppend 62 cs n) v c).2.1 = c + (digits 62 (256 * n + v)).length) := by
  induction cs generalizing n v c with
  | zero =>
    obtain rfl : n = 0 := by simpa using hn
    have hnil : ∀ {m : ℕ}, m < 62 ^ 0 → digitsAppend 62 0 m = [] :=
      Radix.digitsAppend_zero_left (by decide)
    rw [hnil hn, hnil (Nat.mod_lt _ (by decide))]
    refine ⟨rfl, by simp [encodeByte], fun hlt => ?_⟩
    obtain rfl : v = 0 := by simpa using hlt
    simp [encodeByte]
  | succ cs ih =>
    rw [Radix.digitsAppend_succ (by decide), encodeByte]
    by_cases hgo : v ≠ 0 ∨ c < rs
    · rw [if_pos hgo]
      have hpow : 62 ^ (cs + 1) = 62 * 62 ^ cs := Nat.pow_succ'
      -- the lowest digit takes its part of the sum, the rest is carried on
      have hmod : (256 * n + v) % 62 = (v + 256 * (n % 62)) % 62 := by omega
      have hdiv : (256 * n + v) / 62 = 256 * (n / 62) + (v + 256 * (n % 62)) / 62 := by omega
      have hn' : n / 62 < 62 ^ cs := Nat.div_lt_of_lt_mul (hpow ▸ hn)
      have hrs' : rs - (c + 1) = (digits 62 (n / 62)).length := by
        rw [Radix.length_digits_div (by decide)]
        omega
      obtain ⟨hdigits, hcarry, hcount⟩ := ih (n / 62) ((v + 256 * (n % 62)) / 62) (c + 1) hn' hrs'
      rw [← hdiv] at hdigits hcarry hcount
      refine ⟨?_, ?_, fun hlt => ?_⟩
      · have hlow : (256 * n + v) % 62 ^ (cs + 1) % 62 = (v + 256 * (n % 62)) % 62 := by
          rw [hpow, Nat.mod_mul_right_mod, hmod]
        have hhigh : (256 * n + v) % 62 ^ (cs + 1) / 62 = (256 * n + v) / 62 % 62 ^ cs := by
          rw [hpow, Nat.mod_mul_right_div_self]
        rw [Radix.digitsAppend_succ (by decide), hlow, hhigh, ← hdigits]
      · rw [hcarry, Nat.div_div_eq_div_mul, hpow]
      · have hlt' : (256 * n + v) / 62 < 62 ^ cs := Nat.div_lt_of_lt_mul (hpow ▸ hlt)
        have hpos : 0 < 256 * n + v := by
          rcases Nat.eq_zero_or_pos n with rfl | hn
          · have hlength : (digits 62 0).length = 0 := rfl
            omega
          · omega
        rw [hcount hlt', Nat.digits_def' (by decide) hpos, List.length_cons]
        omega
    · rw [if_neg hgo]
      obtain ⟨hv, hc⟩ := not_or.1 hgo
      obtain rfl : v = 0 := not_not.1 hv
      obtain rfl : n = 0 := by
        have hlength : (digits 62 n).length = 0 := by omega
        exact Nat.digits_eq_nil_iff_eq_zero.1 (List.eq_nil_of_length_eq_zero hlength)
      refine ⟨?_, by simp, fun _ => by simp⟩
      rw [← Radix.digitsAppend_succ (by decide)]
      simp

/-! ### All bytes -/

/-- The digits of the number, in `cs` places, with the number of those that are not leading
zeros. -/
def digitsOf (cs n : ℕ) : Digits62 := ⟨digitsAppend 62 cs n, (digits 62 n).length⟩

variable {cs : ℕ} {b : UInt8}

theorem next_digitsOf {n : ℕ} (hn : n < 62 ^ cs) (hfits : 256 * n + b.toNat < 62 ^ cs) :
    (digitsOf cs n).next b = digitsOf cs (256 * n + b.toNat) ∧ (digitsOf cs n).lost b = 0 := by
  obtain ⟨hdigits, hcarry, hcount⟩ :=
    encodeByte_digits (digits 62 n).length cs n b.toNat 0 hn (Nat.sub_zero _)
  rw [Nat.mod_eq_of_lt hfits] at hdigits
  rw [Nat.div_eq_of_lt hfits] at hcarry
  have hcount := hcount hfits
  rw [Nat.zero_add] at hcount
  refine ⟨?_, hcarry⟩
  rw [digitsOf, Digits62.next, hdigits, hcount, digitsOf]

theorem bytesValue_append_singleton (src : List UInt8) (b : UInt8) :
    bytesValue (src ++ [b]) = 256 * bytesValue src + b.toNat := by
  rw [bytesValue, List.map_append]
  exact Radix.ofBigEndian_append_singleton _ _

variable {src : List UInt8}

theorem toNat_lt_of_mem : ∀ d ∈ src.map UInt8.toNat, d < 256 := by
  intro d hd
  obtain ⟨b, -, rfl⟩ := List.mem_map.1 hd
  exact b.toNat_lt

theorem bytesValue_lt (src : List UInt8) : bytesValue src < 256 ^ src.length := by
  have hlt := Radix.ofBigEndian_lt (by decide) (@toNat_lt_of_mem src)
  rwa [List.length_map] at hlt

variable {src' : List UInt8}

theorem bytesValue_inj (hlength : src.length = src'.length)
    (h : bytesValue src = bytesValue src') : src = src' := by
  have hmap := Radix.ofBigEndian_inj (by decide) (by simpa using hlength)
    toNat_lt_of_mem toNat_lt_of_mem h
  exact List.map_injective_iff.2 (fun _ _ => UInt8.toNat_inj.1) hmap

/-- **The outer loop**, up to any of the bytes. -/
theorem encodeDigits_eq (hcs : 256 ^ src.length ≤ 62 ^ cs) :
    encodeDigits cs src = digitsOf cs (bytesValue src) := by
  induction src using List.reverseRecOn with
  | nil =>
    have hzero : bytesValue [] = 0 := rfl
    simp [encodeDigits, digitsOf, digitsAppend, hzero]
  | append_singleton src b ih =>
    have hvalue := bytesValue_lt (src ++ [b])
    rw [bytesValue_append_singleton] at hvalue
    have hshorter : 256 ^ src.length ≤ 256 ^ (src ++ [b]).length :=
      Nat.pow_le_pow_right (by decide) (by simp)
    have hsrc := bytesValue_lt src
    have hstep : encodeDigits cs (src ++ [b]) = (encodeDigits cs src).next b := by
      rw [encodeDigits, List.foldl_append]
      rfl
    rw [hstep, ih (by omega), (next_digitsOf (by omega) (by omega)).1, bytesValue_append_singleton]

/-- No byte loses a carry. -/
theorem lost_eq_zero {before after : List UInt8}
    (hsrc : src = before ++ b :: after) (hcs : 256 ^ src.length ≤ 62 ^ cs) :
    (encodeDigits cs before).lost b = 0 := by
  have hlength : (before ++ [b]).length ≤ src.length := by
    rw [hsrc]
    simp
  have hbefore := bytesValue_lt before
  have hvalue := bytesValue_lt (before ++ [b])
  rw [bytesValue_append_singleton] at hvalue
  have hle : 256 ^ (before ++ [b]).length ≤ 256 ^ src.length :=
    Nat.pow_le_pow_right (by decide) hlength
  have hless : 256 ^ before.length ≤ 256 ^ (before ++ [b]).length :=
    Nat.pow_le_pow_right (by decide) (by simp)
  rw [encodeDigits_eq (by omega)]
  exact (next_digitsOf (by omega) (by omega)).2

theorem encodeBytes_eq (enc : Encoding) (hne : src ≠ []) (hcs : 256 ^ src.length ≤ 62 ^ cs) :
    enc.encodeBytes cs src = ((digits 62 (bytesValue src)).map enc.encode).reverse := by
  rw [Encoding.encodeBytes, if_neg hne, encodeDigits_eq hcs]
  have htake : (digitsAppend 62 cs (bytesValue src)).take (digits 62 (bytesValue src)).length =
      digits 62 (bytesValue src) := Radix.take_digitsAppend cs _
  by_cases hmore : cs > (digits 62 (bytesValue src)).length
  · rw [digitsOf, if_pos hmore, ← List.map_take, htake]
  · have hall : digitsAppend 62 cs (bytesValue src) = digits 62 (bytesValue src) := by
      have hzeros : cs - (digits 62 (bytesValue src)).length = 0 := by omega
      rw [digitsAppend, hzeros]
      simp
    rw [digitsOf, if_neg hmore, hall]

theorem bytesValue_eq_zero_iff : bytesValue src = 0 ↔ ∀ b ∈ src, b = 0 := by
  have hzeros : ∀ n, bytesValue (List.replicate n 0) = 0 := by
    intro n
    induction n with
    | zero => rfl
    | succ n ih => rw [List.replicate_succ', bytesValue_append_singleton, ih]; rfl
  constructor
  · intro h
    have hsrc : src = List.replicate src.length 0 :=
      bytesValue_inj (by simp) (h.trans (hzeros _).symm)
    exact fun b hb => List.eq_of_mem_replicate (hsrc ▸ hb)
  · intro h
    rw [List.eq_replicate_of_mem h]
    exact hzeros _

variable {enc : Encoding}

/-- Letters that are different ones determine the digits. -/
theorem map_encode_inj (henc : Set.InjOn enc.encode {d | d < 62}) {ds ds' : List ℕ}
    (hds : ∀ d ∈ ds, d < 62) (hds' : ∀ d ∈ ds', d < 62)
    (h : ds.map enc.encode = ds'.map enc.encode) : ds = ds' := by
  induction ds generalizing ds' with
  | nil => exact (List.map_eq_nil_iff.1 h.symm).symm
  | cons d ds ih =>
    obtain ⟨d', ds', rfl, hd, hrest⟩ := List.map_eq_cons_iff.1 h.symm
    rw [List.forall_mem_cons] at hds hds'
    rw [henc hds.1 hds'.1 hd.symm, ih hds.2 hds'.2 hrest.symm]

theorem digits_lt {n : ℕ} : ∀ d ∈ digits 62 n, d < 62 :=
  fun _ hd => Nat.digits_lt_base (by decide) hd

/-- The result determines the bytes among those of the same length. -/
theorem encodeBytes_inj (henc : Set.InjOn enc.encode {d | d < 62}) (hne : src ≠ [])
    (hcs : 256 ^ src.length ≤ 62 ^ cs) (hlength : src'.length = src.length)
    (h : enc.encodeBytes cs src' = enc.encodeBytes cs src) : src' = src := by
  have hne' : src' ≠ [] := List.ne_nil_of_length_pos (hlength ▸ List.length_pos_of_ne_nil hne)
  rw [encodeBytes_eq enc hne hcs, encodeBytes_eq enc hne' (hlength.symm ▸ hcs)] at h
  have hmap := map_encode_inj henc digits_lt digits_lt (List.reverse_injective h)
  exact bytesValue_inj hlength (Nat.digits_inj_iff.1 hmap)

/-- **Base 62.** If there are enough digits, no carry is lost, and the result is the number of the
bytes in base 62, without leading zeros. As the letters are different ones, the result determines
the bytes among those of the same length. -/
theorem encode_baseSixtyTwo (enc : Encoding) (henc : Set.InjOn enc.encode {d | d < 62}) (cs : ℕ)
    (src : List UInt8) (hne : src ≠ []) (hcs : 62 ^ cs ≥ 256 ^ src.length) :
    (∀ before b after, src = before ++ b :: after → (encodeDigits cs before).lost b = 0) ∧
      enc.encodeBytes cs src = ((digits 62 (bytesValue src)).map enc.encode).reverse ∧
      (enc.encodeBytes cs src).head? ≠ some (enc.encode 0) ∧
      (enc.encodeBytes cs src = [] ↔ ∀ b ∈ src, b = 0) ∧
      ∀ src', src'.length = src.length → enc.encodeBytes cs src' = enc.encodeBytes cs src →
        src' = src := by
  refine ⟨fun before b after hsrc => lost_eq_zero hsrc hcs, encodeBytes_eq enc hne hcs, ?_, ?_,
    fun src' hlength h => encodeBytes_inj henc hne hcs hlength h⟩
  · rw [encodeBytes_eq enc hne hcs, List.head?_reverse, List.getLast?_map]
    intro hzero
    obtain ⟨d, hlast, hd⟩ := Option.map_eq_some_iff.1 hzero
    have hvalue : bytesValue src ≠ 0 := by
      rintro hvalue
      rw [hvalue] at hlast
      cases hlast
    have hmem : d ∈ digits 62 (bytesValue src) := List.mem_of_getLast? hlast
    have hd0 : d = 0 := henc (digits_lt d hmem) (by decide) hd
    have hne0 := Nat.getLast_digit_ne_zero 62 hvalue
    rw [List.getLast?_eq_some_getLast (List.ne_nil_of_mem hmem), Option.some.injEq] at hlast
    exact hne0 (hlast.trans hd0)
  · rw [encodeBytes_eq enc hne hcs, List.reverse_eq_nil_iff, List.map_eq_nil_iff,
      Nat.digits_eq_nil_iff_eq_zero, bytesValue_eq_zero_iff]

/-- The letters of the standard encoding are different ones. -/
theorem injOn_stdEncoding : Set.InjOn stdEncoding.encode {d | d < 62} := by
  have hall : ∀ d < 62, ∀ d' < 62, stdEncoding.encode d = stdEncoding.encode d' → d = d' := by
    decide +kernel
  exact fun d hd d' hd' => hall d hd d' hd'

/-- The letters `foo` in base 62. -/
theorem encode_foo : (∀ before b after, [102, 111, 111] = before ++ b :: after →
        (encodeDigits 5 before).lost b = 0) ∧
      stdEncoding.encodeBytes 5 [102, 111, 111] = [83, 65, 80, 80] := by
  obtain ⟨hlost, hdigits, -⟩ := encode_baseSixtyTwo stdEncoding injOn_stdEncoding 5 [102, 111, 111]
    (by decide) (by decide)
  refine ⟨hlost, hdigits.trans ?_⟩
  decide +kernel

end SharWorkflow
