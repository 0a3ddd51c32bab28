import Mathlib.Data.Nat.Bitwise
import Mathlib.Tactic.Common

/-!
# Bit fields of machine words

A field of a `w`-bit word is the range of bits `[lo, hi)`, and `field w lo hi` is its mask. The
lemmas read a masked word as a number (`toNat_and_field`), read a shifted and masked word as a digit
(`toNat_index`), glue a high field and a low one together with `|||` (`toNat_and_field_or`), and
turn a test of a one-bit mask into that bit (`and_one_eq_zero_iff`, `and_twoPow_eq_zero_iff`).
-/

namespace KernelPortfolio.BitField

variable {w : ℕ}

/-- The mask of the bits `lo`, ..., `hi - 1` of a word. -/
def field (w lo hi : ℕ) : BitVec w := (BitVec.allOnes w <<< lo) &&& ~~~(BitVec.allOnes w <<< hi)

/-- The bits of a mask. -/
theorem getLsbD_field (lo hi i : ℕ) :
    (field w lo hi).getLsbD i = (decide (i < w) && decide (lo ≤ i) && decide (i < hi)) := by
  simp only [field, BitVec.getLsbD_and, BitVec.getLsbD_not, BitVec.getLsbD_shiftLeft,
    BitVec.getLsbD_allOnes]
  grind

/-- The bits of a masked word are the word's bits inside the field. -/
theorem getLsbD_and_field (x : BitVec w) (lo hi i : ℕ) :
    (x &&& field w lo hi).getLsbD i = (x.getLsbD i && decide (lo ≤ i) && decide (i < hi)) := by
  rw [BitVec.getLsbD_and, getLsbD_field]
  by_cases hi' : i < w
  · simp [hi', Bool.and_assoc]
  · simp [hi', BitVec.getLsbD_of_ge x i (by omega)]

/-- A masked word as a number: the digits of the field, in their place. -/
theorem toNat_and_field (x : BitVec w) {lo hi : ℕ} (h : lo ≤ hi) :
    (x &&& field w lo hi).toNat = x.toNat / 2^lo % 2^(hi - lo) * 2^lo := by
  apply Nat.eq_of_testBit_eq
  intro i
  rw [BitVec.testBit_toNat, getLsbD_and_field, Nat.testBit_mul_two_pow, Nat.testBit_mod_two_pow,
    Nat.testBit_div_two_pow, BitVec.testBit_toNat]
  by_cases hlo : lo ≤ i
  · have e : i - lo + lo = i := by omega
    have e' : decide (i - lo < hi - lo) = decide (i < hi) := by
      rw [decide_eq_decide]; omega
    rw [e, e', decide_eq_true hlo, Bool.and_true, Bool.true_and, Bool.and_comm]
  · simp [hlo]

/-- A low field is a remainder. -/
theorem toNat_and_low (x : BitVec w) (hi : ℕ) : (x &&& field w 0 hi).toNat = x.toNat % 2^hi := by
  rw [toNat_and_field x (Nat.zero_le hi)]
  simp

/-- A shift followed by a low mask extracts a digit. -/
theorem toNat_index (x : BitVec w) (s n : ℕ) :
    ((x >>> s) &&& field w 0 n).toNat = x.toNat / 2^s % 2^n := by
  rw [toNat_and_low, BitVec.toNat_ushiftRight, Nat.shiftRight_eq_div_pow]

/-- A field that starts at bit `lo` does not change when the word is shifted down and up again. -/
theorem and_field_shift_shift (x : BitVec w) (lo hi : ℕ) :
    (x &&& field w lo hi) >>> lo <<< lo = x &&& field w lo hi := by
  apply BitVec.eq_of_getLsbD_eq
  intro i hi'
  rw [BitVec.getLsbD_shiftLeft, BitVec.getLsbD_ushiftRight, getLsbD_and_field, getLsbD_and_field]
  by_cases hlo : i < lo
  · simp [hlo]
  · rw [show lo + (i - lo) = i by omega]
    simp [hi', hlo]

/-- A masked word is below the end of its field. -/
theorem and_field_lt (x : BitVec w) {lo hi : ℕ} (h : lo ≤ hi) :
    (x &&& field w lo hi).toNat < 2^hi := by
  rw [toNat_and_field x h]
  have hd : x.toNat / 2^lo % 2^(hi - lo) < 2^(hi - lo) := Nat.mod_lt _ (Nat.two_pow_pos _)
  calc x.toNat / 2^lo % 2^(hi - lo) * 2^lo < 2^(hi - lo) * 2^lo :=
        Nat.mul_lt_mul_of_pos_right hd (Nat.two_pow_pos _)
    _ = 2^hi := by rw [← pow_add]; congr 1; omega

/-- A high field of one word glued to the low field of another is their sum. -/
theorem toNat_and_field_or (x y : BitVec w) {lo hi : ℕ} (h : lo ≤ hi) :
    ((x &&& field w lo hi) ||| (y &&& field w 0 lo)).toNat =
      x.toNat / 2^lo % 2^(hi - lo) * 2^lo + y.toNat % 2^lo := by
  rw [BitVec.toNat_or, toNat_and_field x h, toNat_and_low, Nat.mul_comm,
    Nat.two_pow_add_eq_or_of_lt (Nat.mod_lt _ (Nat.two_pow_pos lo))]

/-- The glued word is below the end of the high field. -/
theorem and_field_or_lt (x y : BitVec w) {lo hi : ℕ} (h : lo ≤ hi) :
    ((x &&& field w lo hi) ||| (y &&& field w 0 lo)).toNat < 2^hi := by
  rw [BitVec.toNat_or]
  refine Nat.or_lt_two_pow (and_field_lt x h) ?_
  exact lt_of_lt_of_le (and_field_lt y (Nat.zero_le lo)) (Nat.pow_le_pow_right (by omega) h)

/-- A word glued above one that is below the shift is their sum. -/
theorem toNat_shiftLeft_or {x y : BitVec w} {s : ℕ} (hx : x.toNat * 2^s < 2^w)
    (hy : y.toNat < 2^s) : (x <<< s ||| y).toNat = x.toNat * 2^s + y.toNat := by
  rw [BitVec.toNat_or, BitVec.toNat_shiftLeft, Nat.shiftLeft_eq, Nat.mod_eq_of_lt hx,
    Nat.mul_comm, Nat.two_pow_add_eq_or_of_lt hy]

/-- A word tested against the mask `1` is its lowest bit. -/
theorem and_one_eq_zero_iff (x : BitVec 64) : x &&& 1 = 0 ↔ x.getLsbD 0 = false := by
  constructor
  · intro h
    have := congrArg (BitVec.getLsbD · 0) h
    simpa using this
  · intro h
    ext i hi
    rcases Nat.eq_zero_or_pos i with rfl | hpos
    · simpa [BitVec.getLsbD_eq_getElem] using h
    · simp [BitVec.getElem_one, show i ≠ 0 by omega]

/-- A word tested against a one-bit mask is that bit. -/
theorem and_twoPow_eq_zero_iff (x : BitVec w) {k : ℕ} (hk : k < w) :
    x &&& BitVec.twoPow w k = 0 ↔ x.getLsbD k = false := by
  rw [BitVec.and_twoPow]
  constructor
  · intro h
    by_contra hx
    rw [Bool.not_eq_false] at hx
    rw [hx, if_pos rfl] at h
    have := congrArg (BitVec.getLsbD · k) h
    simp [hk] at this
  · intro h
    rw [h]
    rfl

end KernelPortfolio.BitField
