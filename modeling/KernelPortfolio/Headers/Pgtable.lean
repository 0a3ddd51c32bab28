import KernelPortfolio.Machine
import KernelPortfolio.Paging.Hardware

/-!
# The page-table helpers of the kernel's headers

The predicates and accessors of `pgtable.h`, `pgtable_types.h`, `pgtable-invert.h` and
`pgtable_64.h` that the inspectors call, for x86-64 without memory encryption, and which entries
they let through. A 64-bit entry stands for each of `pgd_t`, `p4d_t`, `pud_t`, `pmd_t` and `pte_t`.

The functions that step from a level to the next are in a header that is not part of the
repository. They are the parameter `PgtableOps`, and `PgtableOps.Documented` is what is known of
them on four levels.
-/

namespace KernelPortfolio

open BitField (field)

/-- The choices of the kernel that the helpers depend on. -/
structure Config where
  /-- `pgtable_l5_enabled()`. -/
  l5Enabled : Bool
  /-- `CONFIG_MITIGATION_PAGE_TABLE_ISOLATION`. -/
  pti : Bool
  deriving DecidableEq, Repr

/-! ## Flags and masks -/

/-- `_PAGE_PRESENT`. -/
def pagePresent : U64 := .twoPow 64 0

/-- `_PAGE_RW`. -/
def pageRw : U64 := .twoPow 64 1

/-- `_PAGE_USER`. -/
def pageUser : U64 := .twoPow 64 2

/-- `_PAGE_ACCESSED`. -/
def pageAccessed : U64 := .twoPow 64 5

/-- `_PAGE_DIRTY`. -/
def pageDirty : U64 := .twoPow 64 6

/-- `_PAGE_PSE`. -/
def pagePse : U64 := .twoPow 64 7

/-- `_PAGE_PROTNONE`, the bit of `_PAGE_GLOBAL` in an entry that is not present. -/
def pageProtnone : U64 := .twoPow 64 8

/-- `_PAGE_NX`. -/
def pageNx : U64 := .twoPow 64 63

/-- `_KERNPG_TABLE`. -/
def kernpgTable : U64 := pagePresent ||| pageRw ||| pageAccessed ||| pageDirty

/-- `_PAGE_KNL_ERRATUM_MASK`. -/
def pageKnlErratumMask : U64 := pageDirty ||| pageAccessed

/-- `__PHYSICAL_MASK`. -/
def physicalMask : U64 := .twoPow 64 52 - 1

/-- `PAGE_MASK`. -/
def pageMask : U64 := ~~~(.twoPow 64 12 - 1)

/-- `PTE_PFN_MASK`. -/
def ptePfnMask : U64 := pageMask &&& physicalMask

/-- `PHYSICAL_PMD_PAGE_MASK`. -/
def physicalPmdPageMask : U64 := ~~~(.twoPow 64 21 - 1) &&& physicalMask

/-- `PHYSICAL_PUD_PAGE_MASK`. -/
def physicalPudPageMask : U64 := ~~~(.twoPow 64 30 - 1) &&& physicalMask

/-! ## Entries of the two top levels -/

/-- `pgd_none`. -/
def pgdNone (cfg : Config) (pgd : U64) : Bool :=
  if !cfg.l5Enabled then false else pgd == 0

/-- `pgd_bad`. -/
def pgdBad (cfg : Config) (pgd : U64) : Bool :=
  if !cfg.l5Enabled then false else
  let ignoreFlags := if cfg.pti then pageUser ||| pageNx else pageUser
  (pgd &&& ~~~ptePfnMask) &&& ~~~ignoreFlags != kernpgTable

/-- `pgd_page_vaddr`. -/
def pgdPageVaddr (m : Machine) (pgd : U64) : U64 := m.va (pgd &&& ptePfnMask)

/-- `p4d_index`: `PTRS_PER_P4D` is 1 on four levels. -/
def p4dIndex (cfg : Config) (address : U64) : U64 :=
  (address >>> 39) &&& ((if cfg.l5Enabled then 512 else 1) - 1)

/-- `p4d_offset`, which is the pointer itself on four levels. -/
def p4dOffset (cfg : Config) (m : Machine) (pgd address : U64) : U64 :=
  if !cfg.l5Enabled then pgd else pgdPageVaddr m (m.load pgd) + 8 * p4dIndex cfg address

/-- `p4d_none`. -/
def p4dNone (p4d : U64) : Bool := p4d &&& ~~~pageKnlErratumMask == 0

/-- `p4d_flags`. -/
def p4dFlags (p4d : U64) : U64 := p4d &&& ~~~ptePfnMask

/-- `p4d_bad`. -/
def p4dBad (cfg : Config) (p4d : U64) : Bool :=
  let ignoreFlags := kernpgTable ||| pageUser
  let ignoreFlags := if cfg.pti then ignoreFlags ||| pageNx else ignoreFlags
  p4dFlags p4d &&& ~~~ignoreFlags != 0

/-- `p4d_pgtable`. -/
def p4dPgtable (m : Machine) (p4d : U64) : U64 := m.va (p4d &&& ptePfnMask)

/-! ## Entries of the two middle levels -/

/-- `pud_pfn_mask`. -/
def pudPfnMask (pud : U64) : U64 :=
  if pud &&& pagePse ≠ 0 then physicalPudPageMask else ptePfnMask

/-- `pud_flags`. -/
def pudFlags (pud : U64) : U64 := pud &&& ~~~pudPfnMask pud

/-- `pud_none`. -/
def pudNone (pud : U64) : Bool := pud &&& ~~~pageKnlErratumMask == 0

/-- `pud_bad`. -/
def pudBad (pud : U64) : Bool := pudFlags pud &&& ~~~(kernpgTable ||| pageUser) != 0

/-- `pud_leaf`. -/
def pudLeaf (pud : U64) : Bool := pud &&& pagePse != 0

/-- `pud_pgtable`. -/
def pudPgtable (m : Machine) (pud : U64) : U64 := m.va (pud &&& pudPfnMask pud)

/-- `pmd_pfn_mask`. -/
def pmdPfnMask (pmd : U64) : U64 :=
  if pmd &&& pagePse ≠ 0 then physicalPmdPageMask else ptePfnMask

/-- `pmd_flags`. -/
def pmdFlags (pmd : U64) : U64 := pmd &&& ~~~pmdPfnMask pmd

/-- `pmd_none`. -/
def pmdNone (pmd : U64) : Bool := pmd &&& ~~~pageKnlErratumMask == 0

/-- `pmd_bad`. -/
def pmdBad (pmd : U64) : Bool :=
  pmdFlags pmd &&& ~~~(pageUser ||| pageAccessed) != kernpgTable &&& ~~~pageAccessed

/-- `pmd_leaf`. -/
def pmdLeaf (pmd : U64) : Bool := pmdFlags pmd &&& pagePse != 0

/-- `pmd_page_vaddr`. -/
def pmdPageVaddr (m : Machine) (pmd : U64) : U64 := m.va (pmd &&& pmdPfnMask pmd)

/-! ## Entries of the last level -/

/-- `pte_flags`. -/
def pteFlags (pte : U64) : U64 := pte &&& ~~~ptePfnMask

/-- `pte_present`. -/
def ptePresent (pte : U64) : Bool := pteFlags pte &&& (pagePresent ||| pageProtnone) != 0

/-- `__pte_needs_invert`. -/
def pteNeedsInvert (val : U64) : Bool := val != 0 && val &&& pagePresent == 0

/-- `protnone_mask`. -/
def protnoneMask (val : U64) : U64 := if pteNeedsInvert val then ~~~0 else 0

/-- `pte_pfn`. -/
def ptePfn (pte : U64) : U64 := ((pte ^^^ protnoneMask pte) &&& ptePfnMask) >>> 12

/-- `__swp_entry`, as the entry that `__swp_entry_to_pte` makes of it. -/
def swpEntry (type offset : U64) : U64 := (~~~offset <<< 14 >>> 5) ||| (type <<< 59)

/-- `__swp_type`, of the swap entry that an entry holds. -/
def swpType (x : U64) : U64 := x >>> 59

/-- `__swp_offset`. -/
def swpOffset (x : U64) : U64 := ~~~x <<< 5 >>> 14

/-! ## What the helpers say about the bits of an entry -/

/-- `PTE_PFN_MASK` keeps the bits 51 to 12. -/
theorem ptePfnMask_eq : ptePfnMask = field 64 12 52 := by decide

/-- A test of `_PAGE_PSE` is bit 7. -/
theorem and_pagePse_eq_zero_iff (e : U64) : e &&& pagePse = 0 ↔ e.getLsbD 7 = false :=
  BitField.and_twoPow_eq_zero_iff e (by decide)

/-- On four levels the guard of a PGD entry lets every entry through. -/
theorem pgd_guard_eq_false {cfg : Config} (h : cfg.l5Enabled = false) (e : U64) :
    (pgdNone cfg e || pgdBad cfg e) = false := by
  simp [pgdNone, pgdBad, h]

/-- An entry with the Present bit is not none, at any level. -/
theorem none_eq_false_of_present {e : U64} (h : e.getLsbD 0 = true) :
    (e &&& ~~~pageKnlErratumMask == 0) = false := by
  rw [beq_eq_false_iff_ne]
  intro hzero
  have hbit := congrArg (BitVec.getLsbD · 0) hzero
  have hmask : (~~~pageKnlErratumMask : U64).getLsbD 0 = true := by decide
  rw [BitVec.getLsbD_and, hmask, h] at hbit
  exact absurd hbit (by decide)

/-- The masks of the frame leave the low flags of an entry alone. -/
theorem getLsbD_and_not_mask {lo i : ℕ} (hlo : 12 ≤ lo) (hi : i < 12) (e : U64) :
    (e &&& ~~~field 64 lo 52).getLsbD i = e.getLsbD i := by
  rw [BitVec.getLsbD_and, BitVec.getLsbD_not, BitField.getLsbD_field,
    decide_eq_true (show i < 64 by omega), decide_eq_false (show ¬ lo ≤ i by omega)]
  simp only [Bool.true_and, Bool.false_and, Bool.not_false, Bool.and_true]

/-- The low flags of a PUD entry. -/
theorem getLsbD_pudFlags {i : ℕ} (hi : i < 12) (e : U64) :
    (pudFlags e).getLsbD i = e.getLsbD i := by
  have hpud : physicalPudPageMask = field 64 30 52 := by decide
  unfold pudFlags pudPfnMask
  split_ifs
  · rw [hpud, getLsbD_and_not_mask (by decide) hi]
  · rw [ptePfnMask_eq, getLsbD_and_not_mask le_rfl hi]

/-- The low flags of a PMD entry. -/
theorem getLsbD_pmdFlags {i : ℕ} (hi : i < 12) (e : U64) :
    (pmdFlags e).getLsbD i = e.getLsbD i := by
  have hpmd : physicalPmdPageMask = field 64 21 52 := by decide
  unfold pmdFlags pmdPfnMask
  split_ifs
  · rw [hpmd, getLsbD_and_not_mask (by decide) hi]
  · rw [ptePfnMask_eq, getLsbD_and_not_mask le_rfl hi]

/-- `pud_leaf` is bit 7. -/
theorem pudLeaf_eq (e : U64) : pudLeaf e = e.getLsbD 7 := by
  rw [Bool.eq_iff_iff, pudLeaf, bne_iff_ne, ne_eq, and_pagePse_eq_zero_iff, Bool.not_eq_false]

/-- `pmd_leaf` is bit 7. -/
theorem pmdLeaf_eq (e : U64) : pmdLeaf e = e.getLsbD 7 := by
  rw [Bool.eq_iff_iff, pmdLeaf, bne_iff_ne, ne_eq, and_pagePse_eq_zero_iff, getLsbD_pmdFlags
    (by decide), Bool.not_eq_false]

/-- A PUD entry that is not bad is not a leaf: `_PAGE_PSE` is a bad flag. -/
theorem not_leaf_of_pudBad {e : U64} (h : pudBad e = false) : e.getLsbD 7 = false := by
  simp only [pudBad, bne_eq_false_iff_eq] at h
  have hbit := congrArg (BitVec.getLsbD · 7) h
  have hflag : (~~~(kernpgTable ||| pageUser) : U64).getLsbD 7 = true := by decide
  rw [BitVec.getLsbD_and, getLsbD_pudFlags (by decide), hflag, Bool.and_true] at hbit
  exact hbit

/-- A PMD entry that is not bad is present and not a leaf: `_PAGE_PRESENT` is among the flags that
it must have, and `_PAGE_PSE` is not. -/
theorem table_of_pmdBad {e : U64} (h : pmdBad e = false) :
    e.getLsbD 0 = true ∧ e.getLsbD 7 = false := by
  simp only [pmdBad, bne_eq_false_iff_eq] at h
  have hbit : ∀ i < 12, (e.getLsbD i && (~~~(pageUser ||| pageAccessed) : U64).getLsbD i) =
      (kernpgTable &&& ~~~pageAccessed).getLsbD i := by
    intro i hi
    rw [← h, BitVec.getLsbD_and, getLsbD_pmdFlags hi]
  have h0 := hbit 0 (by decide)
  have h7 := hbit 7 (by decide)
  have hmask0 : (~~~(pageUser ||| pageAccessed) : U64).getLsbD 0 = true := by decide
  have hmask7 : (~~~(pageUser ||| pageAccessed) : U64).getLsbD 7 = true := by decide
  rw [hmask0, Bool.and_true] at h0
  rw [hmask7, Bool.and_true] at h7
  exact ⟨h0, h7⟩

/-- `pte_present` is bit 0 or bit 8. -/
theorem ptePresent_iff (e : U64) :
    ptePresent e = true ↔ e.getLsbD 0 = true ∨ e.getLsbD 8 = true := by
  have hflags : ∀ i < 12, (pteFlags e).getLsbD i = e.getLsbD i := by
    intro i hi
    unfold pteFlags
    rw [ptePfnMask_eq, getLsbD_and_not_mask le_rfl hi]
  have hor : pteFlags e &&& (pagePresent ||| pageProtnone) = 0 ↔
      pteFlags e &&& pagePresent = 0 ∧ pteFlags e &&& pageProtnone = 0 := by
    rw [show pteFlags e &&& (pagePresent ||| pageProtnone) =
      (pteFlags e &&& pagePresent) ||| (pteFlags e &&& pageProtnone) by
        ext i hi
        simp only [BitVec.getElem_and, BitVec.getElem_or, Bool.and_or_distrib_left]]
    exact BitVec.or_eq_zero_iff
  have h0 : pteFlags e &&& pagePresent = 0 ↔ e.getLsbD 0 = false := by
    rw [← hflags 0 (by decide)]
    exact BitField.and_twoPow_eq_zero_iff _ (by decide)
  have h8 : pteFlags e &&& pageProtnone = 0 ↔ e.getLsbD 8 = false := by
    rw [← hflags 8 (by decide)]
    exact BitField.and_twoPow_eq_zero_iff _ (by decide)
  unfold ptePresent
  rw [bne_iff_ne, ne_eq, hor, h0, h8, not_and_or, Bool.not_eq_false, Bool.not_eq_false]

/-- The table that a P4D entry names. -/
theorem p4dPgtable_eq (m : Machine) (e : U64) : p4dPgtable m e = m.va (frame e) := by
  unfold p4dPgtable
  rw [ptePfnMask_eq]
  rfl

/-- The table that a PUD entry names, when it is no leaf. -/
theorem pudPgtable_eq (m : Machine) {e : U64} (h : e.getLsbD 7 = false) :
    pudPgtable m e = m.va (frame e) := by
  rw [pudPgtable, pudPfnMask, if_neg (not_not.mpr ((and_pagePse_eq_zero_iff e).mpr h)),
    ptePfnMask_eq]
  rfl

/-- The table that a PMD entry names, when it is no leaf. -/
theorem pmdPageVaddr_eq (m : Machine) {e : U64} (h : e.getLsbD 7 = false) :
    pmdPageVaddr m e = m.va (frame e) := by
  rw [pmdPageVaddr, pmdPfnMask, if_neg (not_not.mpr ((and_pagePse_eq_zero_iff e).mpr h)),
    ptePfnMask_eq]
  rfl

/-- The frame that an entry of the last level maps, when it has the Present or the PROTNONE bit: its
bits 51 to 12, which are inverted in an entry that is not present. -/
def mappedFrame (pte : U64) : U64 := if pte.getLsbD 0 then frame pte else frame (~~~pte)

/-- The entries that are inverted are those that are not present, but for the empty one. -/
theorem pteNeedsInvert_eq {e : U64} (he : e ≠ 0) : pteNeedsInvert e = !e.getLsbD 0 := by
  have hpresent : e &&& pagePresent = 0 ↔ e.getLsbD 0 = false :=
    BitField.and_twoPow_eq_zero_iff e (by decide)
  unfold pteNeedsInvert
  rw [Bool.eq_iff_iff, Bool.and_eq_true, bne_iff_ne, beq_iff_eq, hpresent, Bool.not_eq_true']
  exact and_iff_right he

/-- The mask that `pte_pfn` applies to an entry that is not empty. -/
theorem xor_protnoneMask {e : U64} (he : e ≠ 0) :
    e ^^^ protnoneMask e = if e.getLsbD 0 then e else ~~~e := by
  have hzero : e ^^^ (0 : U64) = e := BitVec.xor_zero
  have hones : e ^^^ ~~~(0 : U64) = ~~~e := BitVec.xor_allOnes
  unfold protnoneMask
  rw [pteNeedsInvert_eq he]
  cases e.getLsbD 0 with
  | false => exact hones
  | true => exact hzero

/-- `pte_pfn` is the number of the mapped frame, except that of an empty entry is 0. -/
theorem ptePfn_shift (e : U64) : ptePfn e <<< 12 = if e = 0 then 0 else mappedFrame e := by
  have hshift : ptePfn e <<< 12 = frame (e ^^^ protnoneMask e) := by
    unfold ptePfn
    rw [ptePfnMask_eq]
    exact BitField.and_field_shift_shift _ 12 52
  rw [hshift]
  by_cases he : e = 0
  · subst he
    rfl
  · rw [xor_protnoneMask he, if_neg he, mappedFrame]
    split_ifs <;> rfl

/-- A swap entry has neither the Present nor the PROTNONE bit. -/
theorem swpEntry_not_present (type offset : U64) : ptePresent (swpEntry type offset) = false := by
  have hbit : ∀ i < 9, (swpEntry type offset).getLsbD i = false := by
    intro i hi
    rw [swpEntry, BitVec.getLsbD_or, BitVec.getLsbD_ushiftRight, BitVec.getLsbD_shiftLeft,
      BitVec.getLsbD_shiftLeft]
    simp [show i < 59 by omega, show 5 + i < 14 by omega]
  rw [← Bool.not_eq_true, ptePresent_iff, hbit 0 (by decide), hbit 8 (by decide)]
  simp

/-- The fields of a swap entry: the inverted offset from bit 9, and the type from bit 59. -/
theorem toNat_swpEntry {type offset : U64} (ht : type.toNat < 32) (ho : offset.toNat < 2^50) :
    (swpEntry type offset).toNat = (2^50 - 1 - offset.toNat) * 2^9 + type.toNat * 2^59 := by
  have hoff : (~~~offset <<< 14 >>> 5).toNat = (2^50 - 1 - offset.toNat) * 2^9 := by
    rw [BitVec.toNat_ushiftRight, BitVec.toNat_shiftLeft, BitVec.toNat_not, Nat.shiftLeft_eq,
      Nat.shiftRight_eq_div_pow]
    omega
  have htype : (type <<< 59).toNat = 2^59 * type.toNat := by
    rw [BitVec.toNat_shiftLeft, Nat.shiftLeft_eq]
    omega
  unfold swpEntry
  rw [BitVec.toNat_or, hoff, htype, Nat.or_comm, ← Nat.two_pow_add_eq_or_of_lt (by omega)]
  omega

/-- The kernel's decoders give the type and the offset of a swap entry back. -/
theorem swpEntry_decodes {type offset : U64} (ht : type.toNat < 32) (ho : offset.toNat < 2^50) :
    swpType (swpEntry type offset) = type ∧ swpOffset (swpEntry type offset) = offset := by
  have hnat := toNat_swpEntry ht ho
  constructor
  · unfold swpType
    rw [← BitVec.toNat_inj, BitVec.toNat_ushiftRight, hnat, Nat.shiftRight_eq_div_pow]
    omega
  · unfold swpOffset
    rw [← BitVec.toNat_inj, BitVec.toNat_ushiftRight, BitVec.toNat_shiftLeft, BitVec.toNat_not,
      hnat, Nat.shiftLeft_eq, Nat.shiftRight_eq_div_pow]
    omega

/-! ## From a level to the next -/

/-- The functions of the missing header: the index in the top table, and the pointers to the entries
of the four levels, of which the lower three read the entry above. -/
structure PgtableOps where
  pgdIndex : U64 → U64
  pgdOffset : (pgd address : U64) → U64
  pudOffset : (m : Machine) → (p4d address : U64) → U64
  pmdOffset : (m : Machine) → (pud address : U64) → U64
  pteOffsetKernel : (m : Machine) → (pmd address : U64) → U64

/-- The functions on four levels: the index has nine bits, and the table is the one that the entry
above names. -/
structure PgtableOps.Documented (ops : PgtableOps) : Prop where
  pgdIndex : ∀ a, ops.pgdIndex a = (a >>> 39) &&& 511
  pgdOffset : ∀ pgd a, ops.pgdOffset pgd a = pgd + 8 * ((a >>> (39 : ℕ)) &&& 511)
  pudOffset : ∀ m p4d a,
    ops.pudOffset m p4d a = p4dPgtable m (m.load p4d) + 8 * ((a >>> (30 : ℕ)) &&& 511)
  pmdOffset : ∀ m pud a,
    ops.pmdOffset m pud a = pudPgtable m (m.load pud) + 8 * ((a >>> (21 : ℕ)) &&& 511)
  pteOffsetKernel : ∀ m pmd a,
    ops.pteOffsetKernel m pmd a = pmdPageVaddr m (m.load pmd) + 8 * ((a >>> (12 : ℕ)) &&& 511)

/-- Functions that behave as documented. -/
def PgtableOps.fourLevel : PgtableOps where
  pgdIndex a := (a >>> 39) &&& 511
  pgdOffset pgd a := pgd + 8 * ((a >>> (39 : ℕ)) &&& 511)
  pudOffset m p4d a := p4dPgtable m (m.load p4d) + 8 * ((a >>> (30 : ℕ)) &&& 511)
  pmdOffset m pud a := pudPgtable m (m.load pud) + 8 * ((a >>> (21 : ℕ)) &&& 511)
  pteOffsetKernel m pmd a := pmdPageVaddr m (m.load pmd) + 8 * ((a >>> (12 : ℕ)) &&& 511)

/-- They do. -/
theorem PgtableOps.fourLevel_documented : PgtableOps.fourLevel.Documented where
  pgdIndex _ := rfl
  pgdOffset _ _ := rfl
  pudOffset _ _ _ := rfl
  pmdOffset _ _ _ := rfl
  pteOffsetKernel _ _ _ := rfl

end KernelPortfolio
