import KernelPortfolio.Headers.Pgtable

/-!
# The software bits of page-table entries

What `pgtable.h` and `pgtable_types.h` say of the bits that the hardware ignores: the soft-dirty and
the userfaultfd bit, which are at other places in an entry that is present than in a swap entry, and
the emptiness of an entry.
-/

namespace KernelPortfolio

open BitField (field)

/-- `_PAGE_UFFD_WP`. -/
def pageUffdWp : U64 := .twoPow 64 10

/-- `_PAGE_SOFT_DIRTY`. -/
def pageSoftDirty : U64 := .twoPow 64 11

/-- `_PAGE_SWP_SOFT_DIRTY`. -/
def pageSwpSoftDirty : U64 := pageRw

/-- `_PAGE_SWP_UFFD_WP`. -/
def pageSwpUffdWp : U64 := pageUser

/-! ## Entries of the last level -/

/-- `pte_none`. -/
def pteNone (pte : U64) : Bool := pte &&& ~~~pageKnlErratumMask == 0

/-- `pte_soft_dirty`. -/
def pteSoftDirty (pte : U64) : Bool := pteFlags pte &&& pageSoftDirty != 0

/-- `pte_uffd_wp`. -/
def pteUffdWp (pte : U64) : Bool := pteFlags pte &&& pageUffdWp != 0

/-- `pte_swp_soft_dirty`. -/
def pteSwpSoftDirty (pte : U64) : Bool := pteFlags pte &&& pageSwpSoftDirty != 0

/-- `pte_swp_uffd_wp`. -/
def pteSwpUffdWp (pte : U64) : Bool := pteFlags pte &&& pageSwpUffdWp != 0

/-! ## Entries that map a huge page -/

/-- `pmd_present`. -/
def pmdPresent (pmd : U64) : Bool :=
  pmdFlags pmd &&& (pagePresent ||| pageProtnone ||| pagePse) != 0

/-- `pmd_pfn`. -/
def pmdPfn (pmd : U64) : U64 := ((pmd ^^^ protnoneMask pmd) &&& pmdPfnMask pmd) >>> 12

/-- `pmd_soft_dirty`. -/
def pmdSoftDirty (pmd : U64) : Bool := pmdFlags pmd &&& pageSoftDirty != 0

/-- `pmd_uffd_wp`. -/
def pmdUffdWp (pmd : U64) : Bool := pmdFlags pmd &&& pageUffdWp != 0

/-- `pmd_swp_soft_dirty`. -/
def pmdSwpSoftDirty (pmd : U64) : Bool := pmdFlags pmd &&& pageSwpSoftDirty != 0

/-- `pmd_swp_uffd_wp`. -/
def pmdSwpUffdWp (pmd : U64) : Bool := pmdFlags pmd &&& pageSwpUffdWp != 0

/-! ## What they say about the bits of an entry -/

variable {e : U64} {i : ℕ}

/-- An entry with the Present bit is not empty. -/
theorem pteNone_eq_false (h : e.getLsbD 0 = true) : pteNone e = false :=
  none_eq_false_of_present h

/-- An entry that is empty is not present. -/
theorem ptePresent_of_pteNone (h : pteNone e = true) : ptePresent e = false := by
  have hzero : e &&& ~~~pageKnlErratumMask = 0 := by rwa [pteNone, beq_iff_eq] at h
  have hmask : ~~~ptePfnMask &&& (pagePresent ||| pageProtnone) =
      ~~~pageKnlErratumMask &&& (pagePresent ||| pageProtnone) := by decide
  unfold ptePresent pteFlags
  rw [BitVec.and_assoc, hmask, ← BitVec.and_assoc, hzero]
  rfl

/-- `pte_pfn` of an entry with the Present bit is its frame, in pages. -/
theorem toNat_ptePfn (h : e.getLsbD 0 = true) : (ptePfn e).toNat = e.toNat / 2^12 % 2^40 := by
  have hne : e ≠ 0 := by
    rintro rfl
    exact absurd h (by decide)
  have hxor : e ^^^ protnoneMask e = e := by
    rw [xor_protnoneMask hne, h]
    rfl
  unfold ptePfn
  rw [hxor, ptePfnMask_eq, BitVec.toNat_ushiftRight, Nat.shiftRight_eq_div_pow,
    BitField.toNat_and_field e (by decide), Nat.mul_div_cancel _ (by decide)]

/-- `pmd_pfn` of an entry with the Present bit that maps a huge page is its frame, in pages. -/
theorem toNat_pmdPfn (h : e.getLsbD 0 = true) (h' : e.getLsbD 7 = true) :
    (pmdPfn e).toNat = e.toNat / 2^21 % 2^31 * 2^9 := by
  have hne : e ≠ 0 := by
    rintro rfl
    exact absurd h (by decide)
  have hxor : e ^^^ protnoneMask e = e := by
    rw [xor_protnoneMask hne, h]
    rfl
  have hpse : e &&& pagePse ≠ 0 := by
    rw [ne_eq, and_pagePse_eq_zero_iff, h']
    decide
  have hmask : physicalPmdPageMask = field 64 21 52 := by decide
  have hsplit (n : ℕ) : n * 2^21 / 2^12 = n * 2^9 := by omega
  unfold pmdPfn pmdPfnMask
  rw [hxor, if_pos hpse, hmask, BitVec.toNat_ushiftRight, Nat.shiftRight_eq_div_pow,
    BitField.toNat_and_field e (by decide), hsplit]

/-- An entry with the Present bit is present, and not empty, as one of a huge page. -/
theorem pmdPresent_of_present (h : e.getLsbD 0 = true) :
    pmdPresent e = true ∧ pmdNone e = false := by
  refine ⟨?_, none_eq_false_of_present h⟩
  unfold pmdPresent
  rw [bne_iff_ne]
  intro hzero
  have hbit := congrArg (BitVec.getLsbD · 0) hzero
  have hmask : (pagePresent ||| pageProtnone ||| pagePse : U64).getLsbD 0 = true := by decide
  rw [BitVec.getLsbD_and, hmask, getLsbD_pmdFlags (by decide), h] at hbit
  exact absurd hbit (by decide)

end KernelPortfolio
