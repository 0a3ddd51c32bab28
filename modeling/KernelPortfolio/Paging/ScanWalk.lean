import KernelPortfolio.Paging.HugeScan
import Mathlib.Data.List.Nodup
import KernelPortfolio.Paging.WalkVa

/-!
# The huge-page scanners and the tracing walker agree

A scanner enumerates indices and `walk_va` takes an address. `hwWalk_of_isKernelGb` and
`hwWalk_of_isKernelMb` take the pages of the tables to the translation, `isKernelGb_of_hwWalk` and
`isKernelMb_of_hwWalk` take it back, and `scanners_agree_walkVa` states both directions for what the
modules print.
-/

namespace KernelPortfolio

open BitField (field)

/-! ## The path of an address as words of the tables -/

/-- The PML4 entry of an address is the word at its PML4 index. -/
theorem pml4Entry_eq_word (m : Machine) (cr3 va : U64) :
    pml4Entry m (frame cr3) va = pml4Word m cr3 (PtLevel.pml4.index va) :=
  tableEntry_eq m .pml4 (frame cr3) va

/-- The PDPT entry of an address is the word at its first two indices. -/
theorem pdptEntry_eq_word (m : Machine) (cr3 va : U64) :
    pdptEntry m (frame cr3) va =
      pdptWord m cr3 (PtLevel.pml4.index va) (PtLevel.pdpt.index va) := by
  unfold pdptEntry
  rw [tableEntry_eq, pml4Entry_eq_word]
  rfl

/-- The PD entry of an address is the word at its first three indices. -/
theorem pdEntry_eq_word (m : Machine) (cr3 va : U64) :
    pdEntry m (frame cr3) va =
      pdWord m cr3 (PtLevel.pml4.index va) (PtLevel.pdpt.index va) (PtLevel.pd.index va) := by
  unfold pdEntry
  rw [tableEntry_eq, pdptEntry_eq_word]
  rfl

/-- An address with the indices of a 1GB page is translated through it. -/
theorem hwWalk_of_isKernelGb {m : Machine} {cr3 va : U64} {x : GbLeaf} (hx : IsKernelGb m cr3 x)
    (hi : PtLevel.pml4.index va = x.i) (hj : PtLevel.pdpt.index va = x.j) :
    hwWalk m (frame cr3) va = .leaf .pdpt x.entry := by
  rw [hwWalk_eq, pml4Entry_eq_word, pdptEntry_eq_word, hi, hj, ← hx.entry_eq, hx.pml4_present,
    hx.present, hx.large]
  rfl

/-- An address with the indices of a 2MB page is translated through it. -/
theorem hwWalk_of_isKernelMb {m : Machine} {cr3 va : U64} {x : MbLeaf} (hx : IsKernelMb m cr3 x)
    (hi : PtLevel.pml4.index va = x.i) (hj : PtLevel.pdpt.index va = x.j)
    (hk : PtLevel.pd.index va = x.k) : hwWalk m (frame cr3) va = .leaf .pd x.entry := by
  rw [hwWalk_eq, pml4Entry_eq_word, pdptEntry_eq_word, pdEntry_eq_word, hi, hj, hk, ← hx.entry_eq,
    hx.pml4_present, hx.pdpt_present, hx.pdpt_table, hx.present, hx.large]
  rfl

/-- An address above the middle has a PML4 index of the kernel half, if it is canonical. -/
theorem pml4_index_ge {va : U64} (h : 2^64 - 2^47 ≤ va.toNat) : 256 ≤ PtLevel.pml4.index va := by
  have := va.isLt
  simp only [PtLevel.index, PtLevel.shift]
  omega

/-- A kernel address that is translated through a 1GB leaf has the indices of a 1GB page. -/
theorem isKernelGb_of_hwWalk {m : Machine} {cr3 va e : U64} (h : 2^64 - 2^47 ≤ va.toNat)
    (hw : hwWalk m (frame cr3) va = .leaf .pdpt e) :
    IsKernelGb m cr3
      ⟨PtLevel.pml4.index va, PtLevel.pdpt.index va, e, e &&& field 64 30 52⟩ := by
  have hge := pml4_index_ge h
  have hlt := PtLevel.pml4.index_lt va
  have hjlt := PtLevel.pdpt.index_lt va
  rw [hwWalk_eq] at hw
  split_ifs at hw with h0 h1 h2 <;> simp only [Radix.Outcome.leaf.injEq, reduceCtorEq,
    false_and] at hw
  rw [pml4Entry_eq_word, Bool.not_eq_false] at h0
  rw [pdptEntry_eq_word] at h1 h2 hw
  obtain ⟨-, rfl⟩ := hw
  rw [Bool.not_eq_false] at h1
  exact ⟨⟨hge, hlt⟩, hjlt, h0, rfl, h1, h2, rfl⟩

/-- A kernel address that is translated through a 2MB leaf has the indices of a 2MB page. -/
theorem isKernelMb_of_hwWalk {m : Machine} {cr3 va e : U64} (h : 2^64 - 2^47 ≤ va.toNat)
    (hw : hwWalk m (frame cr3) va = .leaf .pd e) :
    IsKernelMb m cr3
      ⟨PtLevel.pml4.index va, PtLevel.pdpt.index va, PtLevel.pd.index va, e,
        e &&& field 64 21 52⟩ := by
  have hge := pml4_index_ge h
  have hlt := PtLevel.pml4.index_lt va
  have hjlt := PtLevel.pdpt.index_lt va
  have hklt := PtLevel.pd.index_lt va
  rw [hwWalk_eq] at hw
  split_ifs at hw with h0 h1 h2 h3 h4 <;> simp only [Radix.Outcome.leaf.injEq, reduceCtorEq,
    false_and] at hw
  rw [pml4Entry_eq_word, Bool.not_eq_false] at h0
  rw [pdptEntry_eq_word] at h1 h2
  rw [pdEntry_eq_word] at h3 h4 hw
  obtain ⟨-, rfl⟩ := hw
  rw [Bool.not_eq_false] at h1 h3
  rw [Bool.not_eq_true] at h2
  exact ⟨⟨hge, hlt⟩, hjlt, hklt, h0, h1, h2, rfl, h3, h4, rfl⟩

/-- `walk_va` reports an address with a leaf exactly when the address is translated through a leaf
of that level. -/
theorem walkVa_translated_iff {m : Machine} {cr3 va : U64} {l : PtLevel} {phys : U64} :
    Report.ofLines (walkVa m cr3 va) = some (.translated l phys) ↔
      ∃ e, hwWalk m (frame cr3) va = .leaf l e ∧ phys = BitVec.ofNat 64 (leafAddr l e va) := by
  rw [walkVa_report, hwReport]
  cases hw : hwWalk m (frame cr3) va with
  | absent l' e => simp
  | pending t => simp
  | leaf l' e =>
    simp only [Option.some.injEq, Report.translated.injEq, Radix.Outcome.leaf.injEq]
    constructor
    · rintro ⟨rfl, rfl⟩
      exact ⟨e, ⟨rfl, rfl⟩, rfl⟩
    · rintro ⟨e', ⟨rfl, rfl⟩, rfl⟩
      exact ⟨rfl, rfl⟩

/-! ## The addresses of the pages -/

/-- The address of the byte `o` of a 1GB page, composed of its indices. -/
def GbLeaf.va (x : GbLeaf) (o : ℕ) : U64 := canonicalVa (x.i * 2^39 + x.j * 2^30 + o)

/-- The address of the byte `o` of a 2MB page, composed of its indices. -/
def MbLeaf.va (x : MbLeaf) (o : ℕ) : U64 :=
  canonicalVa (x.i * 2^39 + x.j * 2^30 + x.k * 2^21 + o)

/-- The address of the byte `o` of a large page. -/
def HugeLeaf.va : HugeLeaf → ℕ → U64
  | gb x => x.va
  | mb x => x.va

/-- The level of a large page's entry. -/
def HugeLeaf.level : HugeLeaf → PtLevel
  | gb _ => .pdpt
  | mb _ => .pd

/-- The printed base of a large page. -/
def HugeLeaf.physBase : HugeLeaf → U64
  | gb x => x.physBase
  | mb x => x.physBase

/-- The first two indices of a composed address are read back, and so is what is below them. -/
theorem index_canonicalVa {i j n : ℕ} (hi : i < 512) (hj : j < 512) (hn : n < 2^30) :
    PtLevel.pml4.index (canonicalVa (i * 2^39 + j * 2^30 + n)) = i ∧
      PtLevel.pdpt.index (canonicalVa (i * 2^39 + j * 2^30 + n)) = j ∧
      (canonicalVa (i * 2^39 + j * 2^30 + n)).toNat % 2^30 = n := by
  have hlow := canonicalVa_toNat_mod (i * 2^39 + j * 2^30 + n)
  simp only [PtLevel.index, PtLevel.shift]
  generalize (canonicalVa (i * 2^39 + j * 2^30 + n)).toNat = va at hlow
  refine ⟨?_, ?_, ?_⟩ <;> omega

/-- `walk_va` reports every byte of a 1GB page of the kernel half, at its base plus the offset. -/
theorem walkVa_gb {m : Machine} {cr3 : U64} {x : GbLeaf} (hx : IsKernelGb m cr3 x) {o : ℕ}
    (ho : o < 2^30) :
    ∃ phys, Report.ofLines (walkVa m cr3 (x.va o)) = some (.translated .pdpt phys) ∧
      phys.toNat = x.physBase.toNat + o := by
  obtain ⟨hi, hj, hoff⟩ := index_canonicalVa hx.i_range.2 hx.j_lt ho
  have hw := hwWalk_of_isKernelGb hx hi hj
  refine ⟨_, walkVa_translated_iff.mpr ⟨x.entry, hw, rfl⟩, ?_⟩
  rw [toNat_leafAddr, hx.physBase_eq]
  exact congrArg _ hoff

/-- `walk_va` reports every byte of a 2MB page of the kernel half, at its base plus the offset. -/
theorem walkVa_mb {m : Machine} {cr3 : U64} {x : MbLeaf} (hx : IsKernelMb m cr3 x) {o : ℕ}
    (ho : o < 2^21) :
    ∃ phys, Report.ofLines (walkVa m cr3 (x.va o)) = some (.translated .pd phys) ∧
      phys.toNat = x.physBase.toNat + o := by
  have hk := hx.k_lt
  have hva : x.va o = canonicalVa (x.i * 2^39 + x.j * 2^30 + (x.k * 2^21 + o)) := by
    rw [MbLeaf.va, Nat.add_assoc (x.i * 2^39 + x.j * 2^30)]
  obtain ⟨hi, hj, hlow⟩ := index_canonicalVa hx.i_range.2 hx.j_lt
    (show x.k * 2^21 + o < 2^30 by omega)
  rw [← hva] at hi hj hlow
  -- the third index and the offset are below the second index
  have hk : PtLevel.pd.index (x.va o) = x.k := by
    simp only [PtLevel.index, PtLevel.shift]
    omega
  have hoff : (x.va o).toNat % 2^21 = o := by omega
  have hw := hwWalk_of_isKernelMb hx hi hj hk
  refine ⟨_, walkVa_translated_iff.mpr ⟨x.entry, hw, rfl⟩, ?_⟩
  rw [toNat_leafAddr, hx.physBase_eq]
  exact congrArg _ hoff

/-! ## Both directions -/

/-- Every byte of a large page of the kernel half is reported at its base plus the offset. -/
theorem walkVa_hugeLeaf {m : Machine} {cr3 : U64} {x : HugeLeaf} (hx : IsKernelLeaf m cr3 x)
    {o : ℕ} (ho : o < 2^x.level.shift) :
    ∃ phys, Report.ofLines (walkVa m cr3 (x.va o)) = some (.translated x.level phys) ∧
      phys.toNat = x.physBase.toNat + o := by
  cases x with
  | gb x => exact walkVa_gb hx ho
  | mb x => exact walkVa_mb hx ho

/-- Items in strict order of their keys have a key once. -/
theorem count_key_eq_one {α : Type} {key : α → List ℕ} {xs : List α} {x : α}
    (hs : xs.Pairwise fun x y => key x < key y) (hx : x ∈ xs) :
    (xs.map key).count (key x) = 1 := by
  have hnodup : (xs.map key).Nodup := by
    rw [List.Nodup, List.pairwise_map]
    refine hs.imp fun {a b} hab heq => ?_
    rw [heq] at hab
    exact List.lt_irrefl _ hab
  exact List.count_eq_one_of_mem hnodup (List.mem_map_of_mem hx)

/-- The scanners and `walk_va` agree. Every byte of a page that either scanner prints is reported by
`walk_va` with the same size and at the printed base plus the offset. Conversely, when `walk_va`
reports a 1GB page for a kernel address, its pair of indices is in the list of `demo_walk1gb_show`
once, and when it reports a 2MB page, the page is in the list of `demo_huge_show`, if there are
fewer than ten large pages. -/
theorem scanners_agree_walkVa (m : Machine) (cr3 : U64) :
    (∀ x ∈ (demoHugeShow m cr3).found, ∀ o < 2^x.level.shift,
      ∃ phys, Report.ofLines (walkVa m cr3 (x.va o)) = some (.translated x.level phys) ∧
        phys.toNat = x.physBase.toNat + o) ∧
    (∀ x ∈ (demoWalk1gbShow m cr3).found, ∀ o < 2^30,
      ∃ phys, Report.ofLines (walkVa m cr3 (x.va o)) = some (.translated .pdpt phys) ∧
        phys.toNat = x.physBase.toNat + o) ∧
    ∀ va : U64, 2^64 - 2^47 ≤ va.toNat → ∀ phys,
      (Report.ofLines (walkVa m cr3 va) = some (.translated .pdpt phys) →
        ((demoWalk1gbShow m cr3).found.map GbLeaf.key).count
          [PtLevel.pml4.index va, PtLevel.pdpt.index va] = 1) ∧
      (Report.ofLines (walkVa m cr3 va) = some (.translated .pd phys) →
        (kernelLeaves m cr3).length < 10 →
        ∃ x, .mb x ∈ (demoHugeShow m cr3).found ∧
          (x.i = PtLevel.pml4.index va ∧ x.j = PtLevel.pdpt.index va ∧
            x.k = PtLevel.pd.index va) ∧
          phys.toNat = x.physBase.toNat + va.toNat % 2^21) := by
  have hhuge := (demoHugeShow_found m cr3).1
  have hgb := (demoWalk1gbShow_found m cr3).1
  refine ⟨fun x hx o ho => ?_, fun x hx o ho => ?_, fun va hva phys => ⟨fun hr => ?_, ?_⟩⟩
  · rw [hhuge] at hx
    exact walkVa_hugeLeaf (mem_kernelLeaves.mp (List.mem_of_mem_take hx)) ho
  · rw [hgb] at hx
    exact walkVa_gb (mem_kernelGbLeaves.mp hx) ho
  · obtain ⟨e, hw, -⟩ := walkVa_translated_iff.mp hr
    rw [hgb]
    exact count_key_eq_one (kernelGbLeaves_pairwise m cr3)
      (mem_kernelGbLeaves.mpr (isKernelGb_of_hwWalk hva hw))
  · intro hr hlen
    obtain ⟨e, hw, rfl⟩ := walkVa_translated_iff.mp hr
    have hmem : HugeLeaf.mb _ ∈ kernelLeaves m cr3 :=
      mem_kernelLeaves.mpr (isKernelMb_of_hwWalk hva hw)
    rw [hhuge, List.take_of_length_le hlen.le]
    exact ⟨_, hmem, ⟨rfl, rfl, rfl⟩, toNat_leafAddr .pd e va⟩

end KernelPortfolio
