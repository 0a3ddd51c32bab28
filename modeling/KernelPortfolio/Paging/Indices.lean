import KernelPortfolio.Lib.SignExtend
import KernelPortfolio.Paging.RawWalk
import KernelPortfolio.Paging.ScanWalk
import KernelPortfolio.Inspect.Canonical

/-!
# Indices of an address, and the PML4 dump

`extract_indices_raw` takes an address apart, and `RawIndices.recombine` puts it together again: a
canonical address is the one that its indices recombine to, and every choice of indices comes from
one (`bijOn_extractIndicesRaw`). `demo_02_extract_indices` prints the same indices, and what it
prints of an address recombines to it (`indicesShow_recombine`).

`demo_11_dump_pml4` prints where the region of each present PML4 entry starts. The regions are the
slots of the canonical addresses for their PML4 index (`region_eq_slot`), so that an address has a
present PML4 entry exactly when the dump has a row for it (`mem_demoPml4Show_iff`).
-/

namespace KernelPortfolio

open Loop (Flow forLoop)
open SignExtend (SignExtended slot slotStart)

/-! ## `demo_02_extract_indices` -/

/-- The lines that `demo_02_extract_indices` prints; the header and the formula are several. -/
inductive IndicesLine where
  | header
  | formula
  | address (va : U64)
  | index (l : PtLevel) (va shifted idx : U64)
  | offset (va off : U64)
  deriving DecidableEq, Repr

/-- `show_extraction`. -/
def showExtraction (va : U64) : List IndicesLine :=
  let pml4 := (va >>> 39) &&& 0x1FF
  let pdpt := (va >>> 30) &&& 0x1FF
  let pd := (va >>> 21) &&& 0x1FF
  let pt := (va >>> 12) &&& 0x1FF
  let off := va &&& 0xFFF
  [.address va, .index .pml4 va (va >>> 39) pml4, .index .pdpt va (va >>> 30) pdpt,
    .index .pd va (va >>> 21) pd, .index .pt va (va >>> 12) pt, .offset va off]

/-- `test_vaddrs`. -/
def testVaddrs : List U64 :=
  [0x7FFE5E4ED123, 0xFFFF89DF00000000, 0x0000000000001000, 0xFFFFFFFFFFFFFFFF]

/-- `indices_show`. -/
def indicesShow : List IndicesLine := .header :: .formula :: testVaddrs.flatMap showExtraction

/-! ## `demo_11_dump_pml4` -/

/-- `va_start`, for an index. -/
def vaStart (i : ℕ) : U64 :=
  let vaStart := BitVec.ofNat 64 i <<< 39
  if 256 ≤ i then vaStart ||| 0xFFFF000000000000 else vaStart

/-- A row of the dump. -/
structure Pml4Row where
  i : ℕ
  entry : U64
  vaStart : U64
  deriving DecidableEq, Repr

/-- What `demo_pml4_show` prints: the register, the pointer to the table, and the rows. -/
structure Pml4Show where
  cr3 : U64
  pml4Virt : U64
  rows : List Pml4Row

/-- The body of the loop of `demo_pml4_show`. -/
def pml4Body (m : Machine) (pml4Virt : U64) (i : ℕ) (rows : List Pml4Row) : Flow (List Pml4Row) :=
  if m.index pml4Virt (BitVec.ofNat 64 i) &&& pagePresent ≠ 0 then
    .next (rows ++ [⟨i, m.index pml4Virt (BitVec.ofNat 64 i), vaStart i⟩])
  else .next rows

/-- `demo_pml4_show`, on the value of CR3 that it reads. -/
def demoPml4Show (m : Machine) (cr3 : U64) : Pml4Show :=
  let pml4Phys := cr3 &&& pteAddrMask
  let pml4Virt := m.va pml4Phys
  ⟨cr3, pml4Virt, forLoop (fun _ => true) (pml4Body m pml4Virt) 512 0 []⟩

/-! ## Taking an address apart -/

/-- The four indices are below 512, and the offset is below 4096. -/
structure RawIndices.InRange (idx : RawIndices) : Prop where
  pml4 : idx.pml4Idx.toNat < 512
  pdpt : idx.pdptIdx.toNat < 512
  pd : idx.pdIdx.toNat < 512
  pt : idx.ptIdx.toNat < 512
  offset : idx.offset.toNat < 4096

/-- The address with the given indices: they are put in their places, and bit 47 is repeated in the
bits above it. -/
def RawIndices.recombine (idx : RawIndices) : U64 :=
  ((idx.pml4Idx <<< 39 ||| (idx.pdptIdx <<< 30 ||| (idx.pdIdx <<< 21 ||| (idx.ptIdx <<< 12 |||
    idx.offset)))).setWidth 48).signExtend 64

/-- An output of `extract_indices_raw` as a number. -/
theorem toNat_shift_mask (va : U64) (s : ℕ) :
    ((va >>> s) &&& 0x1ff).toNat = va.toNat / 2^s % 512 := by
  have hmask : (0x1ff : U64) = BitField.field 64 0 9 := by decide
  rw [hmask]
  exact BitField.toNat_index va s 9

/-- The offset as a number. -/
theorem toNat_offset_mask (va : U64) : (va &&& 0xfff).toNat = va.toNat % 4096 := by
  have hmask : (0xfff : U64) = BitField.field 64 0 12 := by decide
  rw [hmask]
  exact BitField.toNat_and_low va 12

/-- The outputs of `extract_indices_raw` are in range. -/
theorem inRange_extractIndicesRaw (va : U64) : (extractIndicesRaw va).InRange := by
  have hidx (s : ℕ) : ((va >>> s) &&& 0x1ff).toNat < 512 :=
    (toNat_shift_mask va s).trans_lt (Nat.mod_lt _ (by decide))
  have hoff : (va &&& 0xfff).toNat < 4096 :=
    (toNat_offset_mask va).trans_lt (Nat.mod_lt _ (by decide))
  exact ⟨hidx 39, hidx 30, hidx 21, hidx 12, hoff⟩

/-- The number that the indices are the digits of. -/
def RawIndices.toNat (idx : RawIndices) : ℕ :=
  idx.pml4Idx.toNat * 2^39 + (idx.pdptIdx.toNat * 2^30 + (idx.pdIdx.toNat * 2^21 +
    (idx.ptIdx.toNat * 2^12 + idx.offset.toNat)))

/-- Indices in range recombine to the canonical address of their number. -/
theorem RawIndices.InRange.recombine_eq {idx : RawIndices} (h : idx.InRange) :
    idx.recombine = canonicalVa idx.toNat := by
  obtain ⟨h4, h3, h2, h1, h0⟩ := h
  have hpt : (idx.ptIdx <<< 12 ||| idx.offset).toNat =
      idx.ptIdx.toNat * 2^12 + idx.offset.toNat :=
    BitField.toNat_shiftLeft_or (by omega) (by omega)
  have hpd : (idx.pdIdx <<< 21 ||| (idx.ptIdx <<< 12 ||| idx.offset)).toNat =
      idx.pdIdx.toNat * 2^21 + (idx.ptIdx.toNat * 2^12 + idx.offset.toNat) := by
    rw [BitField.toNat_shiftLeft_or (by omega) (by omega), hpt]
  have hpdpt : (idx.pdptIdx <<< 30 ||| (idx.pdIdx <<< 21 ||| (idx.ptIdx <<< 12 |||
      idx.offset))).toNat = idx.pdptIdx.toNat * 2^30 + (idx.pdIdx.toNat * 2^21 +
        (idx.ptIdx.toNat * 2^12 + idx.offset.toNat)) := by
    rw [BitField.toNat_shiftLeft_or (by omega) (by omega), hpd]
  unfold RawIndices.recombine canonicalVa RawIndices.toNat
  congr 1
  apply BitVec.eq_of_toNat_eq
  rw [BitVec.toNat_setWidth, BitVec.toNat_ofNat,
    BitField.toNat_shiftLeft_or (by omega) (by omega), hpdpt]

/-- The indices of an address are the digits of its low 48 bits. -/
theorem toNat_extractIndicesRaw (va : U64) : (extractIndicesRaw va).toNat = va.toNat % 2^48 := by
  simp only [RawIndices.toNat, extractIndicesRaw, toNat_shift_mask, toNat_offset_mask]
  omega

/-- The canonical addresses are the lowest and the highest `2^47`. -/
theorem canonical_iff_toNat {va : U64} :
    Canonical va ↔ va.toNat < 2^47 ∨ 2^64 - 2^47 ≤ va.toNat :=
  SignExtend.signExtended_iff_toNat (by decide)

/-- The address for a number is canonical. -/
theorem canonical_canonicalVa (n : ℕ) : Canonical (canonicalVa n) :=
  SignExtend.signExtended_signExtend (by decide) _

/-- Canonical addresses with the same low 48 bits are equal. -/
theorem Canonical.ext {va va' : U64} (h : Canonical va) (h' : Canonical va')
    (hlow : va.toNat % 2^48 = va'.toNat % 2^48) : va = va' :=
  SignExtended.ext h h' hlow

/-- A canonical address is recombined from its indices. -/
theorem Canonical.recombine_extractIndicesRaw {va : U64} (h : Canonical va) :
    (extractIndicesRaw va).recombine = va := by
  rw [(inRange_extractIndicesRaw va).recombine_eq]
  refine (canonical_canonicalVa _).ext h ?_
  rw [canonicalVa_toNat_mod, toNat_extractIndicesRaw, Nat.mod_mod]

/-- Indices in range are determined by their number. -/
theorem RawIndices.InRange.ext {idx idx' : RawIndices} (h : idx.InRange) (h' : idx'.InRange)
    (hnum : idx.toNat = idx'.toNat) : idx = idx' := by
  obtain ⟨h4, h3, h2, h1, h0⟩ := h
  obtain ⟨h4', h3', h2', h1', h0'⟩ := h'
  unfold RawIndices.toNat at hnum
  have e4 : idx.pml4Idx = idx'.pml4Idx := BitVec.eq_of_toNat_eq (by omega)
  have e3 : idx.pdptIdx = idx'.pdptIdx := BitVec.eq_of_toNat_eq (by omega)
  have e2 : idx.pdIdx = idx'.pdIdx := BitVec.eq_of_toNat_eq (by omega)
  have e1 : idx.ptIdx = idx'.ptIdx := BitVec.eq_of_toNat_eq (by omega)
  have e0 : idx.offset = idx'.offset := BitVec.eq_of_toNat_eq (by omega)
  calc idx = ⟨idx.pml4Idx, idx.pdptIdx, idx.pdIdx, idx.ptIdx, idx.offset⟩ := rfl
    _ = ⟨idx'.pml4Idx, idx'.pdptIdx, idx'.pdIdx, idx'.ptIdx, idx'.offset⟩ := by
      rw [e4, e3, e2, e1, e0]
    _ = idx' := rfl

/-- Indices in range are those of the address that they recombine to. -/
theorem RawIndices.InRange.extractIndicesRaw_recombine {idx : RawIndices} (h : idx.InRange) :
    extractIndicesRaw idx.recombine = idx := by
  refine (inRange_extractIndicesRaw _).ext h ?_
  have hlt : idx.toNat < 2^48 := by
    obtain ⟨h4, h3, h2, h1, h0⟩ := h
    unfold RawIndices.toNat
    omega
  rw [toNat_extractIndicesRaw, h.recombine_eq, canonicalVa_toNat_mod, Nat.mod_eq_of_lt hlt]

/-- The canonical addresses and the indices in range correspond to each other. -/
theorem bijOn_extractIndicesRaw :
    Set.BijOn extractIndicesRaw {va | Canonical va} {idx | idx.InRange} := by
  refine ⟨fun va _ => inRange_extractIndicesRaw va, fun va hva va' hva' heq => ?_,
    fun idx hidx => ?_⟩
  · calc va = (extractIndicesRaw va).recombine := hva.recombine_extractIndicesRaw.symm
      _ = (extractIndicesRaw va').recombine := by rw [heq]
      _ = va' := hva'.recombine_extractIndicesRaw
  · refine ⟨idx.recombine, ?_, hidx.extractIndicesRaw_recombine⟩
    rw [Set.mem_ofPred_eq, hidx.recombine_eq]
    exact canonical_canonicalVa _

/-- The addresses of a report of `demo_02_extract_indices`, each with the indices below it. -/
def extractions : List IndicesLine → List (U64 × RawIndices)
  | .address va :: .index .pml4 _ _ i :: .index .pdpt _ _ j :: .index .pd _ _ k ::
      .index .pt _ _ l :: .offset _ o :: lines => (va, ⟨i, j, k, l, o⟩) :: extractions lines
  | _ :: lines => extractions lines
  | [] => []

/-- What `show_extraction` prints of an address is what `extract_indices_raw` returns. -/
theorem extractions_flatMap (vas : List U64) :
    extractions (vas.flatMap showExtraction) = vas.map fun va => (va, extractIndicesRaw va) := by
  induction vas with
  | nil => rfl
  | cons va vas ih =>
    rw [List.flatMap_cons, List.map_cons, ← ih]
    rfl

/-- What `indices_show` prints below an address recombines to the address. -/
theorem indicesShow_recombine :
    ∀ x ∈ extractions indicesShow, x.2.recombine = x.1 := by
  have htest : ∀ va ∈ testVaddrs, va.toNat < 2^47 ∨ 2^64 - 2^47 ≤ va.toNat := by
    simp [testVaddrs]
  have hrun : extractions indicesShow = testVaddrs.map fun va => (va, extractIndicesRaw va) :=
    extractions_flatMap testVaddrs
  rw [hrun, List.forall_mem_map]
  intro va hva
  exact (canonical_iff_toNat.mpr (htest va hva)).recombine_extractIndicesRaw

/-! ## The regions of the PML4 entries -/

/-- The addresses from `va_start` on, up to the size of what an entry maps. -/
def region (i : ℕ) : Set ℕ := Set.Ico (vaStart i).toNat ((vaStart i).toNat + 2^39)

/-- `va_start` as a number: where the slot for the index starts. -/
theorem toNat_vaStart {i : ℕ} (hi : i < 512) : (vaStart i).toNat = slotStart 64 47 39 i := by
  have hshift : (BitVec.ofNat 64 i <<< 39).toNat = i * 2^39 := by
    rw [BitVec.toNat_shiftLeft, BitVec.toNat_ofNat, Nat.shiftLeft_eq]
    omega
  rw [slotStart, SignExtend.slotNumber, vaStart]
  have hhalf : 2^(47 - 39) = 256 := by decide
  rw [hhalf]
  rcases Nat.lt_or_ge i 256 with hlow | hhigh
  · rw [if_neg (Nat.not_le.mpr hlow), if_pos hlow, hshift]
  · -- the index repeats its bit 8 as bit 47, and the mask the bits above it
    have hmask : (0xFFFF000000000000 : U64) = (0xFFFF : U64) <<< (48 : ℕ) := by decide
    have hones : (0xFFFF : U64).toNat = 65535 := by decide
    rw [if_pos hhigh, if_neg (Nat.not_lt.mpr hhigh), hmask, BitVec.or_comm,
      BitField.toNat_shiftLeft_or (by rw [hones]; decide) (by omega), hshift, hones]
    omega

/-- The region of an entry is the slot of the canonical addresses for its index. -/
theorem region_eq_slot {i : ℕ} (hi : i < 512) : region i = slot 64 47 39 i := by
  rw [region, slot, toNat_vaStart hi]

/-- The region of an entry holds the canonical addresses with its PML4 index. -/
theorem mem_region_iff {i : ℕ} (hi : i < 512) {va : U64} :
    va.toNat ∈ region i ↔ Canonical va ∧ (extractIndicesRaw va).pml4Idx.toNat = i := by
  have hidx : (extractIndicesRaw va).pml4Idx.toNat = va.toNat / 2^39 % 2^9 :=
    toNat_shift_mask va 39
  rw [region_eq_slot hi, hidx]
  exact SignExtend.mem_slot_iff (by decide) (by decide) hi va

/-- The row of the dump for an index. -/
def pml4Row (m : Machine) (cr3 : U64) (i : ℕ) : Pml4Row := ⟨i, pml4Word m cr3 i, vaStart i⟩

/-- The body of the loop prints the row of a present entry. -/
theorem pml4Body_eq (m : Machine) (cr3 : U64) (i : ℕ) (rows : List Pml4Row) :
    pml4Body m (m.va (cr3 &&& pteAddrMask)) i rows = .next
      (if (pml4Word m cr3 i).getLsbD 0 then rows ++ [pml4Row m cr3 i] else rows) := by
  have hword : m.index (m.va (cr3 &&& pteAddrMask)) (BitVec.ofNat 64 i) = pml4Word m cr3 i := by
    rw [Machine.index_va, pteAddrMask_eq]
    rfl
  have hpresent : pml4Word m cr3 i &&& pagePresent = 0 ↔ (pml4Word m cr3 i).getLsbD 0 = false :=
    BitField.and_twoPow_eq_zero_iff _ (by decide)
  unfold pml4Body
  rw [hword]
  cases hbit : (pml4Word m cr3 i).getLsbD 0 with
  | false =>
    rw [if_neg (not_not.mpr (hpresent.mpr hbit))]
    rfl
  | true =>
    rw [if_pos fun h => Bool.noConfusion (hbit.symm.trans (hpresent.mp h))]
    rfl

/-- The dump has the rows of the present entries, in the order of the table. -/
theorem demoPml4Show_rows (m : Machine) (cr3 : U64) :
    (demoPml4Show m cr3).rows =
      ((List.range 512).filter fun i => (pml4Word m cr3 i).getLsbD 0).map (pml4Row m cr3) := by
  -- after `i` iterations the rows of the first `i` entries have been printed
  let P (i : ℕ) (rows : List Pml4Row) : Prop :=
    rows = ((List.range i).filter fun i => (pml4Word m cr3 i).getLsbD 0).map (pml4Row m cr3)
  have hloop : P (0 + 512)
      (forLoop (fun _ => true) (pml4Body m (m.va (cr3 &&& pteAddrMask))) 512 0 []) := by
    refine Loop.forLoop_rule P 512 rfl ?_ ?_ ?_
    · intro i rows rows' _ _ h _ hnext
      rw [pml4Body_eq] at hnext
      simp only [P, ← Flow.next.inj hnext, List.range_succ, List.filter_append, List.map_append]
      rw [show rows = _ from h]
      cases hbit : (pml4Word m cr3 i).getLsbD 0 <;>
        simp only [List.filter_cons, hbit, List.filter_nil] <;> simp
    · -- the body has no `break`
      intro i rows rows' _ _ _ _ hbrk
      rw [pml4Body_eq] at hbrk
      exact absurd hbrk (by simp)
    · intro i rows _ _ _ hcond
      exact absurd hcond (by decide)
  rw [Nat.zero_add] at hloop
  exact hloop

/-- An address is in the 512GB from the start that a row shows, beside the entry of the address,
exactly when it is canonical and its PML4 entry is present. -/
theorem mem_demoPml4Show_iff {m : Machine} {cr3 va : U64} :
    (∃ r ∈ (demoPml4Show m cr3).rows, r.entry = pml4Entry m (frame cr3) va ∧
      va.toNat ∈ Set.Ico r.vaStart.toNat (r.vaStart.toNat + 2^39)) ↔
    Canonical va ∧ (pml4Entry m (frame cr3) va).getLsbD 0 = true := by
  have hidx : (extractIndicesRaw va).pml4Idx.toNat = PtLevel.pml4.index va :=
    toNat_shift_mask va 39
  rw [demoPml4Show_rows, pml4Entry_eq_word]
  constructor
  · intro h
    obtain ⟨r, hr, -, hregion⟩ := h
    obtain ⟨i, hi, rfl⟩ := List.mem_map.mp hr
    obtain ⟨hrange, hbit⟩ := List.mem_filter.mp hi
    obtain ⟨hcanonical, hi⟩ := (mem_region_iff (List.mem_range.mp hrange)).mp hregion
    rw [← hidx, hi]
    exact ⟨hcanonical, hbit⟩
  · intro h
    obtain ⟨hcanonical, hbit⟩ := h
    have hlt : PtLevel.pml4.index va < 512 := PtLevel.pml4.index_lt va
    refine ⟨pml4Row m cr3 (PtLevel.pml4.index va), List.mem_map_of_mem ?_, rfl, ?_⟩
    · exact List.mem_filter.mpr ⟨List.mem_range.mpr hlt, hbit⟩
    · exact (mem_region_iff hlt).mpr ⟨hcanonical, hidx⟩

/-- Index extraction is a bijection that agrees with the dump: a canonical address is recombined
from its indices, and every choice of indices comes from exactly one. The regions are disjoint, hold
canonical addresses only, and all of them, each in the region of its own PML4 index. -/
theorem extractIndicesRaw_agrees_vaStart :
    (∀ va, Canonical va → (extractIndicesRaw va).recombine = va) ∧
    (∀ idx : RawIndices, idx.InRange → ∃! va, Canonical va ∧ extractIndicesRaw va = idx) ∧
    (∀ i < 512, ∀ j < 512, i ≠ j → Disjoint (region i) (region j)) ∧
    (∀ i < 512, ∀ a ∈ region i, ∃ va, Canonical va ∧ va.toNat = a) ∧
    (∀ va, Canonical va → ∃ i < 512, va.toNat ∈ region i) ∧
    ∀ va, Canonical va → va.toNat ∈ region (extractIndicesRaw va).pml4Idx.toNat := by
  have hown (va : U64) (h : Canonical va) :
      va.toNat ∈ region (extractIndicesRaw va).pml4Idx.toNat :=
    (mem_region_iff (inRange_extractIndicesRaw va).pml4).mpr ⟨h, rfl⟩
  refine ⟨fun va h => h.recombine_extractIndicesRaw, fun idx hidx => ?_,
    fun i hi j hj hij => ?_, fun i hi a ha => ?_, fun va h => ?_, hown⟩
  · obtain ⟨va, hva, rfl⟩ := bijOn_extractIndicesRaw.surjOn hidx
    exact ⟨va, ⟨hva, rfl⟩, fun va' h => bijOn_extractIndicesRaw.injOn h.1 hva h.2⟩
  · rw [region_eq_slot hi, region_eq_slot hj]
    exact SignExtend.slot_disjoint (by decide) (by decide) hi hj hij
  · have hunion : ⋃ i < 2^9, slot 64 47 39 i = BitVec.toNat '' {va | Canonical va} :=
      SignExtend.iUnion_slot (w := 64) (n := 47) (k := 39) (by decide) (by decide)
    rw [region_eq_slot hi] at ha
    have hmem : a ∈ ⋃ i < 2^9, slot 64 47 39 i := Set.mem_iUnion₂.mpr ⟨i, hi, ha⟩
    rw [hunion] at hmem
    exact hmem
  · exact ⟨_, (inRange_extractIndicesRaw va).pml4, hown va h⟩

end KernelPortfolio
