import KernelPortfolio.Machine
import KernelPortfolio.Lib.Radix

/-!
# Four-level translation

What the modules' walkers are measured against: the x86-64 translation as a walk over a radix tree
(`hwWalk`), whose levels take nine bits of the address each, from bit 39 down to bit 12. An entry
with bit 0 clear stops the walk, a PDPT or PD entry with bit 7 set maps a large page, and a PT entry
always maps its page. The address that a leaf of `2^s` bytes gives is `leafAddr`: bits 51 to `s` of
the entry above the low `s` bits of the virtual address.
-/

namespace KernelPortfolio

open BitField (field)

/-- The levels of the translation. -/
inductive PtLevel where
  | pml4
  | pdpt
  | pd
  | pt
  deriving DecidableEq, Repr

namespace PtLevel

/-- The lowest address bit that the level's index takes, and the size of its leaves. -/
def shift : PtLevel → ℕ
  | pml4 => 39
  | pdpt => 30
  | pd => 21
  | pt => 12

/-- Whether a present entry of the level is a leaf. -/
def isLeaf : PtLevel → U64 → Bool
  | pml4, _ => false
  | pdpt, e => e.getLsbD 7
  | pd, e => e.getLsbD 7
  | pt, _ => true

/-- The nine bits of a level's index lie below bit 48. -/
theorem shift_add_nine_le (l : PtLevel) : l.shift + 9 ≤ 48 := by
  cases l <;> decide

/-- Every leaf is smaller than the physical address space. -/
theorem shift_le (l : PtLevel) : l.shift ≤ 52 := by
  cases l <;> decide

end PtLevel

/-- The physical address of the table that an entry names: its bits 51 to 12. -/
def frame (e : U64) : U64 := e &&& field 64 12 52

/-- The entry of a table that a level's index selects. -/
def tableEntry (m : Machine) (l : PtLevel) (table va : U64) : U64 :=
  m.phys (table + 8 * ((va >>> l.shift) &&& 511))

/-- A level of the translation. -/
def hwLevel (m : Machine) (l : PtLevel) : Radix.Level PtLevel U64 U64 U64 where
  tag := l
  entry := tableEntry m l
  verdict e :=
    if e.getLsbD 0 = false then .absent
    else if l.isLeaf e then .leaf
    else .table (frame e)

/-- The levels of the translation, in the order of the walk. -/
def hwLevels (m : Machine) : List (Radix.Level PtLevel U64 U64 U64) :=
  [.pml4, .pdpt, .pd, .pt].map (hwLevel m)

/-- The translation of `va` from the PML4 table at the physical address `root`. -/
def hwWalk (m : Machine) (root va : U64) : Radix.Outcome PtLevel U64 U64 :=
  Radix.walk (hwLevels m) root va

/-- The word number `i` of a table. -/
def tableWord (m : Machine) (table : U64) (i : ℕ) : U64 := m.phys (table + 8 * BitVec.ofNat 64 i)

/-- The mask of an index. -/
theorem indexMask_eq : (511 : U64) = field 64 0 9 := by decide

/-- The index that a level takes from an address, as a number. -/
def PtLevel.index (l : PtLevel) (va : U64) : ℕ := va.toNat / 2^l.shift % 512

/-- An index is below 512. -/
theorem PtLevel.index_lt (l : PtLevel) (va : U64) : l.index va < 512 := Nat.mod_lt _ (by decide)

/-- The entry that an address selects is the table's word at the level's index. -/
theorem tableEntry_eq (m : Machine) (l : PtLevel) (table va : U64) :
    tableEntry m l table va = tableWord m table (l.index va) := by
  have hidx : (va >>> l.shift) &&& 511 = BitVec.ofNat 64 (l.index va) := by
    rw [← BitVec.toNat_inj, indexMask_eq, BitField.toNat_index, BitVec.toNat_ofNat,
      Nat.mod_eq_of_lt (lt_trans (l.index_lt va) (by decide))]
    rfl
  unfold tableEntry tableWord
  rw [hidx]

/-- The PML4 entry of `va`. -/
def pml4Entry (m : Machine) (root va : U64) : U64 := tableEntry m .pml4 root va

/-- The PDPT entry of `va`, when the walk descends through the PML4 entry. -/
def pdptEntry (m : Machine) (root va : U64) : U64 :=
  tableEntry m .pdpt (frame (pml4Entry m root va)) va

/-- The PD entry of `va`, when the walk descends through the PDPT entry. -/
def pdEntry (m : Machine) (root va : U64) : U64 :=
  tableEntry m .pd (frame (pdptEntry m root va)) va

/-- The PT entry of `va`, when the walk descends through the PD entry. -/
def ptEntry (m : Machine) (root va : U64) : U64 :=
  tableEntry m .pt (frame (pdEntry m root va)) va

/-- One level of the translation, and the rest of the walk. -/
theorem walk_hwLevel_cons (m : Machine) (l : PtLevel)
    (ls : List (Radix.Level PtLevel U64 U64 U64)) (table va : U64) :
    Radix.walk (hwLevel m l :: ls) table va =
      if (tableEntry m l table va).getLsbD 0 = false then .absent l (tableEntry m l table va)
      else if l.isLeaf (tableEntry m l table va) then .leaf l (tableEntry m l table va)
      else Radix.walk ls (frame (tableEntry m l table va)) va := by
  simp only [Radix.walk, hwLevel]
  split_ifs <;> rfl

/-- The translation, level by level, on the entries of the path. -/
theorem hwWalk_eq (m : Machine) (root va : U64) :
    hwWalk m root va =
      if (pml4Entry m root va).getLsbD 0 = false then .absent .pml4 (pml4Entry m root va)
      else if (pdptEntry m root va).getLsbD 0 = false then .absent .pdpt (pdptEntry m root va)
      else if (pdptEntry m root va).getLsbD 7 = true then .leaf .pdpt (pdptEntry m root va)
      else if (pdEntry m root va).getLsbD 0 = false then .absent .pd (pdEntry m root va)
      else if (pdEntry m root va).getLsbD 7 = true then .leaf .pd (pdEntry m root va)
      else if (ptEntry m root va).getLsbD 0 = false then .absent .pt (ptEntry m root va)
      else .leaf .pt (ptEntry m root va) := by
  simp only [hwWalk, hwLevels, List.map, walk_hwLevel_cons, PtLevel.isLeaf, Bool.false_eq_true,
    if_false, if_true]
  rfl

/-- No PML4 entry is a leaf. -/
theorem hwWalk_leaf_ne_pml4 {m : Machine} {root va e : U64} {l : PtLevel}
    (h : hwWalk m root va = .leaf l e) : l ≠ .pml4 := by
  rw [hwWalk_eq] at h
  rintro rfl
  split_ifs at h <;> simp at h

/-- When neither middle entry of the path is a leaf, a leaf is the PT entry, and the whole path is
present. -/
theorem hwWalk_leaf_of_tables {m : Machine} {root va e : U64} {l : PtLevel}
    (hw : hwWalk m root va = .leaf l e) (h : (pdptEntry m root va).getLsbD 7 = false)
    (h' : (pdEntry m root va).getLsbD 7 = false) :
    (l = .pt ∧ e = ptEntry m root va) ∧ (pml4Entry m root va).getLsbD 0 = true ∧
      (pdptEntry m root va).getLsbD 0 = true ∧ (pdEntry m root va).getLsbD 0 = true ∧
      (ptEntry m root va).getLsbD 0 = true := by
  rw [hwWalk_eq, h, h'] at hw
  simp only [Bool.false_eq_true, if_false] at hw
  split_ifs at hw with h4 h3 h2 h1
  simp only [Radix.Outcome.leaf.injEq] at hw
  rw [Bool.not_eq_false] at h4 h3 h2 h1
  exact ⟨⟨hw.1.symm, hw.2.symm⟩, h4, h3, h2, h1⟩

/-- The entry of `va` at a level, when the walk gets there. -/
def pathEntry (m : Machine) (root va : U64) : PtLevel → U64
  | .pml4 => pml4Entry m root va
  | .pdpt => pdptEntry m root va
  | .pd => pdEntry m root va
  | .pt => ptEntry m root va

/-- The entry that a walk stops at is the entry of that level, and is not present. -/
theorem hwWalk_absent_entry {m : Machine} {root va e : U64} {l : PtLevel}
    (hw : hwWalk m root va = .absent l e) :
    pathEntry m root va l = e ∧ e.getLsbD 0 = false := by
  rw [hwWalk_eq] at hw
  split_ifs at hw <;> cases hw <;> exact ⟨rfl, ‹_›⟩

/-- The physical address that a leaf of a level gives: the entry's bits from 51 down to the size of
the leaf, and the address's bits below. -/
def leafAddr (l : PtLevel) (e va : U64) : ℕ :=
  e.toNat / 2^l.shift % 2^(52 - l.shift) * 2^l.shift + va.toNat % 2^l.shift

/-- A leaf's address is a 52-bit number. -/
theorem leafAddr_lt (l : PtLevel) (e va : U64) : leafAddr l e va < 2^52 := by
  unfold leafAddr
  rw [← BitField.toNat_and_field_or e va l.shift_le]
  exact BitField.and_field_or_lt e va l.shift_le

/-- The two masks of a leaf compute its address. -/
theorem or_eq_ofNat_leafAddr (l : PtLevel) (e va : U64) :
    (e &&& field 64 l.shift 52) ||| (va &&& field 64 0 l.shift) =
      BitVec.ofNat 64 (leafAddr l e va) := by
  unfold leafAddr
  rw [← BitField.toNat_and_field_or e va l.shift_le, BitVec.ofNat_toNat, BitVec.setWidth_eq]

/-- A leaf's address is the leaf's base plus the address's offset in it. -/
theorem leafAddr_eq (l : PtLevel) (e va : U64) :
    leafAddr l e va = (e &&& field 64 l.shift 52).toNat + va.toNat % 2^l.shift := by
  unfold leafAddr
  rw [BitField.toNat_and_field e l.shift_le]

/-- The word of a leaf's address. -/
theorem toNat_leafAddr (l : PtLevel) (e va : U64) :
    (BitVec.ofNat 64 (leafAddr l e va)).toNat =
      (e &&& field 64 l.shift 52).toNat + va.toNat % 2^l.shift := by
  have hlt := leafAddr_lt l e va
  rw [BitVec.toNat_ofNat, Nat.mod_eq_of_lt (by omega), leafAddr_eq]

/-- What a walker reports: the level with the absent entry, or the leaf's level and the physical
address. -/
inductive Report where
  | notPresent (l : PtLevel)
  | translated (l : PtLevel) (phys : U64)
  deriving DecidableEq, Repr

/-- The translation of `va` as a report. -/
def hwReport (m : Machine) (root va : U64) : Option Report :=
  match hwWalk m root va with
  | .absent l _ => some (.notPresent l)
  | .leaf l e => some (.translated l (BitVec.ofNat 64 (leafAddr l e va)))
  | .pending _ => none

/-- Two addresses that agree on the bits from `s` to 47 have the same index at every level above
`s`. -/
theorem index_congr {s : ℕ} {va va' : U64} (l : PtLevel) (hs : s ≤ l.shift)
    (h : ∀ i, s ≤ i → i < 48 → va'.getLsbD i = va.getLsbD i) :
    (va' >>> l.shift) &&& 511 = (va >>> l.shift) &&& 511 := by
  apply BitVec.eq_of_getLsbD_eq
  intro i _
  rw [indexMask_eq, BitField.getLsbD_and_field, BitField.getLsbD_and_field,
    BitVec.getLsbD_ushiftRight,
    BitVec.getLsbD_ushiftRight]
  by_cases hi : i < 9
  · have := l.shift_add_nine_le
    rw [h (l.shift + i) (by omega) (by omega)]
  · simp [hi]

/-- An address that agrees with `va` on the bits from the size of its leaf to 47 is translated
through the same leaf. -/
theorem hwWalk_leaf_congr {m : Machine} {root va va' : U64} {l : PtLevel} {e : U64}
    (hw : hwWalk m root va = .leaf l e)
    (h : ∀ i, l.shift ≤ i → i < 48 → va'.getLsbD i = va.getLsbD i) :
    hwWalk m root va' = .leaf l e := by
  refine Radix.walk_leaf_congr PtLevel.shift ?_ ?_ hw
  · simp [hwLevels, hwLevel, PtLevel.shift]
  · intro lv hlv hle t
    obtain ⟨k, -, rfl⟩ := List.mem_map.mp hlv
    simp only [hwLevel, tableEntry] at hle ⊢
    rw [index_congr k hle h]

section

variable {va va' : U64} (h : ∀ i < 48, va'.getLsbD i = va.getLsbD i)

include h

/-- Two addresses that agree on the low 48 bits have the same entry at every level. -/
theorem pathEntry_congr (m : Machine) (root : U64) (l : PtLevel) :
    pathEntry m root va' l = pathEntry m root va l := by
  have hentry : ∀ l table, tableEntry m l table va' = tableEntry m l table va := by
    intro l table
    unfold tableEntry
    rw [index_congr l (Nat.zero_le _) fun i _ hi => h i hi]
  cases l <;> simp only [pathEntry, ptEntry, pdEntry, pdptEntry, pml4Entry, hentry]

/-- They have the same offset in a leaf. -/
theorem leafAddr_congr (l : PtLevel) (e : U64) : leafAddr l e va' = leafAddr l e va := by
  have hlow : va' &&& field 64 0 l.shift = va &&& field 64 0 l.shift := by
    apply BitVec.eq_of_getLsbD_eq
    intro i _
    rw [BitField.getLsbD_and_field, BitField.getLsbD_and_field]
    by_cases hi : i < l.shift
    · rw [h i (by have := l.shift_add_nine_le; omega)]
    · simp [hi]
  unfold leafAddr
  rw [← BitField.toNat_and_low, hlow, BitField.toNat_and_low]

/-- The translation does not look at the bits from 48 up. -/
theorem hwReport_congr (m : Machine) (root : U64) : hwReport m root va' = hwReport m root va := by
  have hwalk : hwWalk m root va' = hwWalk m root va := by
    have hpml4 : pml4Entry m root va' = pml4Entry m root va := pathEntry_congr h m root .pml4
    have hpdpt : pdptEntry m root va' = pdptEntry m root va := pathEntry_congr h m root .pdpt
    have hpd : pdEntry m root va' = pdEntry m root va := pathEntry_congr h m root .pd
    have hpt : ptEntry m root va' = ptEntry m root va := pathEntry_congr h m root .pt
    rw [hwWalk_eq, hwWalk_eq, hpml4, hpdpt, hpd, hpt]
  unfold hwReport
  rw [hwalk]
  simp only [leafAddr_congr h]

end

/-! ## Canonical addresses -/

/-- The canonical address with the low 48 bits of `n`: bit 47 is repeated in the bits above it. -/
def canonicalVa (n : ℕ) : U64 := (BitVec.ofNat 48 n).signExtend 64

/-- The low 48 bits of a canonical address. -/
theorem canonicalVa_toNat_mod (n : ℕ) : (canonicalVa n).toNat % 2^48 = n % 2^48 := by
  have hlow : (canonicalVa n).setWidth 48 = BitVec.ofNat 48 n := by
    apply BitVec.eq_of_getLsbD_eq
    intro i hi
    simp only [canonicalVa, BitVec.getLsbD_setWidth, BitVec.getLsbD_signExtend, hi, if_true,
      decide_true, Bool.true_and, decide_eq_true (show i < 64 by omega)]
  rw [← BitVec.toNat_setWidth, hlow, BitVec.toNat_ofNat]

/-! ## The masks of the modules

The modules write the fields of an entry and of an address as hexadecimal masks, each its own copy
of the same constants. -/

/-- `PTE_ADDR_MASK`. -/
def pteAddrMask : U64 := 0x000FFFFFFFFFF000

/-- The mask of a table's address. -/
theorem pteAddrMask_eq : pteAddrMask = field 64 12 52 := by decide

/-- The two masks of a 1GB page. -/
theorem huge1G_eq (e va : U64) :
    (e &&& 0x000FFFFFC0000000) ||| (va &&& 0x3FFFFFFF) =
      BitVec.ofNat 64 (leafAddr .pdpt e va) := by
  rw [← or_eq_ofNat_leafAddr, show (0x000FFFFFC0000000 : U64) = field 64 30 52 by decide,
    show (0x3FFFFFFF : U64) = field 64 0 30 by decide]
  rfl

/-- The two masks of a 2MB page. -/
theorem huge2M_eq (e va : U64) :
    (e &&& 0x000FFFFFFFE00000) ||| (va &&& 0x1FFFFF) = BitVec.ofNat 64 (leafAddr .pd e va) := by
  rw [← or_eq_ofNat_leafAddr, show (0x000FFFFFFFE00000 : U64) = field 64 21 52 by decide,
    show (0x1FFFFF : U64) = field 64 0 21 by decide]
  rfl

/-- The two masks of a 4KB page. -/
theorem page4K_eq (e va : U64) :
    (e &&& pteAddrMask) ||| (va &&& 0xFFF) = BitVec.ofNat 64 (leafAddr .pt e va) := by
  rw [← or_eq_ofNat_leafAddr, pteAddrMask_eq, show (0xFFF : U64) = field 64 0 12 by decide]
  rfl

/-- The PML4 entry that CR3 and the address's top index select. -/
theorem phys_pml4 (m : Machine) (cr3 va : U64) :
    m.phys ((cr3 &&& pteAddrMask) + 8 * (va >>> (39 : ℕ) &&& 0x1FF)) =
      pml4Entry m (frame cr3) va := by
  rw [pteAddrMask_eq]
  rfl

/-- The PDPT entry that a PML4 entry and the address's second index select. -/
theorem phys_pdpt (m : Machine) (root va : U64) :
    m.phys ((pml4Entry m root va &&& pteAddrMask) + 8 * (va >>> (30 : ℕ) &&& 0x1FF)) =
      pdptEntry m root va := by
  rw [pteAddrMask_eq]
  rfl

/-- The PD entry that a PDPT entry and the address's third index select. -/
theorem phys_pd (m : Machine) (root va : U64) :
    m.phys ((pdptEntry m root va &&& pteAddrMask) + 8 * (va >>> (21 : ℕ) &&& 0x1FF)) =
      pdEntry m root va := by
  rw [pteAddrMask_eq]
  rfl

/-- The PT entry that a PD entry and the address's fourth index select. -/
theorem phys_pt (m : Machine) (root va : U64) :
    m.phys ((pdEntry m root va &&& pteAddrMask) + 8 * (va >>> (12 : ℕ) &&& 0x1FF)) =
      ptEntry m root va := by
  rw [pteAddrMask_eq]
  rfl

end KernelPortfolio
