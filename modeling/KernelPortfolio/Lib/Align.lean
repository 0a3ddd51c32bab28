import Mathlib.Algebra.Order.Floor.Div
import Mathlib.Order.Interval.Set.LinearOrder
import KernelPortfolio.Lib.BitField

/-!
# Rounding up to a multiple

`alignUp a x` is the least multiple of `a` that is not below `x` (`isLeast_alignUp`). A block of `a`
numbers from there on is within the `2 a` numbers from `x` on (`Ico_alignUp_subset`), which is why
twice the size is allocated where a block has to be aligned. `block_subset_iff` says which aligned
blocks are in a range. On machine words the least multiple is
computed with a sum and a mask, which `toNat_add_and_field` says is right modulo `2^w`: where the
least multiple is `2^w` itself, the result is 0.
-/

namespace KernelPortfolio.Align

open BitField (field)

/-- The least multiple of `a` that is not below `x`. -/
def alignUp (a x : ℕ) : ℕ := a * (x ⌈/⌉ a)

/-- The least multiple, by a division that rounds down. -/
theorem alignUp_eq {a : ℕ} (ha : 0 < a) (x : ℕ) : alignUp a x = (x + (a - 1)) / a * a := by
  rw [alignUp, Nat.ceilDiv_eq_add_pred_div, Nat.mul_comm, Nat.add_sub_assoc ha]

/-- `alignUp a x` is the least multiple of `a` that is not below `x`. -/
theorem isLeast_alignUp {a : ℕ} (ha : 0 < a) (x : ℕ) :
    IsLeast {y | a ∣ y ∧ x ≤ y} (alignUp a x) := by
  refine ⟨⟨Nat.dvd_mul_right _ _, le_smul_ceilDiv ha⟩, ?_⟩
  rintro y ⟨⟨c, rfl⟩, hx⟩
  exact Nat.mul_le_mul_left a ((ceilDiv_le_iff_le_mul ha).mpr hx)

/-- The least multiple is less than `a` above. -/
theorem alignUp_lt {a : ℕ} (ha : 0 < a) (x : ℕ) : alignUp a x < x + a := by
  rw [alignUp_eq ha]
  have := Nat.div_mul_le_self (x + (a - 1)) a
  omega

/-- The block of `a` numbers from the least multiple on is within `2 a` numbers from `x` on. -/
theorem Ico_alignUp_subset {a : ℕ} (ha : 0 < a) (x : ℕ) :
    Set.Ico (alignUp a x) (alignUp a x + a) ⊆ Set.Ico x (x + 2 * a) := by
  have hle : x ≤ alignUp a x := (isLeast_alignUp ha x).1.2
  have hlt : alignUp a x < x + a := alignUp_lt ha x
  exact Set.Ico_subset_Ico hle (by omega)

/-- The block of `a` numbers from `i * a` on is in a range that starts at a multiple exactly when
`i` is among the numbers of the range's whole blocks. -/
theorem block_subset_iff {a lo len i : ℕ} (ha : 0 < a) (hlo : a ∣ lo) :
    Set.Ico (i * a) (i * a + a) ⊆ Set.Ico lo (lo + len) ↔ lo / a ≤ i ∧ i < lo / a + len / a := by
  obtain ⟨c, rfl⟩ := hlo
  have hend : i * a + a ≤ a * c + len ↔ i < c + len / a := by
    rw [← Nat.add_one_mul, ← Nat.le_div_iff_mul_le ha, Nat.mul_add_div ha, Nat.succ_le_iff]
  rw [Set.Ico_subset_Ico_iff (Nat.lt_add_of_pos_right ha), hend, Nat.mul_div_cancel_left c ha,
    Nat.mul_comm i a, Nat.mul_le_mul_left_iff ha]

/-- The sum and the mask compute the least multiple modulo `2^w`. -/
theorem toNat_add_and_field {w k : ℕ} (hk : k ≤ w) (x : BitVec w) :
    ((x + BitVec.ofNat w (2^k - 1)) &&& field w k w).toNat = alignUp (2^k) x.toNat % 2^w := by
  have hpos : 0 < 2^k := Nat.two_pow_pos k
  have hwords : 2^w = 2^(w - k) * 2^k := (Nat.pow_sub_mul_pow 2 hk).symm
  rw [BitField.toNat_and_field _ hk, BitVec.toNat_add, BitVec.toNat_ofNat, Nat.add_mod_mod,
    alignUp_eq hpos, hwords, Nat.mod_mul_left_div_self, Nat.mod_mod, Nat.mul_mod_mul_right]

end KernelPortfolio.Align
