import KernelPortfolio.Lib.Loop
import KernelPortfolio.Paging.Hardware

/-!
# The huge-page scanners `demo_05_check_huge` and `demo_09_walk_1gb`

Both modules scan the kernel half of the tables behind CR3 and print the large pages that they find:
`demoHugeShow` the 1GB and 2MB pages, at most ten of them, and `demoWalk1gbShow` all 1GB pages. The
leaves that the tables hold are `kernelLeaves`, in the order of their indices
(`kernelLeaves_pairwise`) and each once, and a scan prints a prefix of them
(`demoHugeShow_found`, `demoWalk1gbShow_found`).
-/

namespace KernelPortfolio

open Loop (Flow Tally forLoop)
open BitField (field)

/-- `HUGE_1GB_MASK`. -/
def huge1GMask : U64 := 0x000FFFFFC0000000

/-- `HUGE_2MB_MASK`. -/
def huge2MMask : U64 := 0x000FFFFFFFE00000

/-- A 1GB page as a scanner prints it: its indices, its entry, and `phys_base`. -/
structure GbLeaf where
  i : ℕ
  j : ℕ
  entry : U64
  physBase : U64
  deriving DecidableEq, Repr

/-- A 2MB page as a scanner prints it. -/
structure MbLeaf where
  i : ℕ
  j : ℕ
  k : ℕ
  entry : U64
  physBase : U64
  deriving DecidableEq, Repr

/-- A large page that `demo_huge_show` prints. -/
inductive HugeLeaf where
  | gb (x : GbLeaf)
  | mb (x : MbLeaf)
  deriving DecidableEq, Repr

/-- The indices of a 1GB page. -/
def GbLeaf.key (x : GbLeaf) : List ℕ := [x.i, x.j]

/-- The indices of a large page. -/
def HugeLeaf.key : HugeLeaf → List ℕ
  | gb x => x.key
  | mb x => [x.i, x.j, x.k]

/-- What a scanner prints: the pages that it found, and their number. -/
structure ScanShow (α : Type) where
  found : List α
  total : ℕ

/-! ## The loops

The two scanners share the loop over the PML4 table: `scanPml4Body` is its body, with the condition
and the body of the loop over a PDPT table as arguments. -/

/-- The body of a scanner's loop over the PML4 table. -/
def scanPml4Body {α : Type} (m : Machine) (cond : Tally α → Bool)
    (pdptBody : U64 → ℕ → ℕ → Tally α → Flow (Tally α)) (pml4 : U64) (i : ℕ) (s : Tally α) :
    Flow (Tally α) :=
  if m.index pml4 (BitVec.ofNat 64 i) &&& 1 = 0 then .next s else
  let pdpt := m.va (m.index pml4 (BitVec.ofNat 64 i) &&& pteAddrMask)
  .next (forLoop cond (pdptBody pdpt i) 512 0 s)

/-- `huge_count < 10`. -/
def hugeBelow (s : Tally HugeLeaf) : Bool := decide (s.count < 10)

/-- The body of the loop of `demo_huge_show` over a PD table. -/
def hugePdBody (m : Machine) (pd : U64) (i j k : ℕ) (s : Tally HugeLeaf) : Flow (Tally HugeLeaf) :=
  let entry := m.index pd (BitVec.ofNat 64 k)
  if entry &&& 1 = 0 then .next s else
  if (entry >>> 7) &&& 1 ≠ 0 then
    let s := s.push (.mb ⟨i, j, k, entry, entry &&& huge2MMask⟩)
    if 10 ≤ s.count then .brk s else .next s
  else .next s

/-- The body of the loop of `demo_huge_show` over a PDPT table. -/
def hugePdptBody (m : Machine) (pdpt : U64) (i j : ℕ) (s : Tally HugeLeaf) :
    Flow (Tally HugeLeaf) :=
  let entry := m.index pdpt (BitVec.ofNat 64 j)
  if entry &&& 1 = 0 then .next s else
  if (entry >>> 7) &&& 1 ≠ 0 then .next (s.push (.gb ⟨i, j, entry, entry &&& huge1GMask⟩)) else
  let pd := m.va (entry &&& pteAddrMask)
  .next (forLoop hugeBelow (hugePdBody m pd i j) 512 0 s)

/-- `demo_huge_show`, on the value of CR3 that it reads. -/
def demoHugeShow (m : Machine) (cr3 : U64) : ScanShow HugeLeaf :=
  let pml4 := m.va (cr3 &&& pteAddrMask)
  let s := forLoop hugeBelow (scanPml4Body m hugeBelow (hugePdptBody m) pml4) 256 256 Tally.empty
  ⟨s.found, s.count⟩

/-- The loops of `demo_walk1gb_show` have no condition beside the bound. -/
def always (_ : Tally GbLeaf) : Bool := true

/-- The body of the loop of `demo_walk1gb_show` over a PDPT table. -/
def walk1gbPdptBody (m : Machine) (pdpt : U64) (i j : ℕ) (s : Tally GbLeaf) :
    Flow (Tally GbLeaf) :=
  let entry := m.index pdpt (BitVec.ofNat 64 j)
  if entry &&& 1 = 0 then .next s else
  if (entry >>> 7) &&& 1 ≠ 0 then .next (s.push ⟨i, j, entry, entry &&& huge1GMask⟩)
  else .next s

/-- `demo_walk1gb_show`, on the value of CR3 that it reads. -/
def demoWalk1gbShow (m : Machine) (cr3 : U64) : ScanShow GbLeaf :=
  let pml4 := m.va (cr3 &&& pteAddrMask)
  let s := forLoop always (scanPml4Body m always (walk1gbPdptBody m) pml4) 256 256 Tally.empty
  ⟨s.found, s.count⟩

/-! ## The leaves of the tables -/

/-- The word of the PML4 table for the index `i`. -/
def pml4Word (m : Machine) (cr3 : U64) (i : ℕ) : U64 := tableWord m (frame cr3) i

/-- The word of the PDPT table under `i` for the index `j`. -/
def pdptWord (m : Machine) (cr3 : U64) (i j : ℕ) : U64 :=
  tableWord m (frame (pml4Word m cr3 i)) j

/-- The word of the PD table under `i` and `j` for the index `k`. -/
def pdWord (m : Machine) (cr3 : U64) (i j k : ℕ) : U64 :=
  tableWord m (frame (pdptWord m cr3 i j)) k

/-- A 1GB page of the kernel half: its PDPT entry is present with PS set, the PML4 entry above it is
present, and the base is the entry masked to 1GB. -/
structure IsKernelGb (m : Machine) (cr3 : U64) (x : GbLeaf) : Prop where
  i_range : 256 ≤ x.i ∧ x.i < 512
  j_lt : x.j < 512
  pml4_present : (pml4Word m cr3 x.i).getLsbD 0 = true
  entry_eq : x.entry = pdptWord m cr3 x.i x.j
  present : x.entry.getLsbD 0 = true
  large : x.entry.getLsbD 7 = true
  physBase_eq : x.physBase = x.entry &&& field 64 30 52

/-- A 2MB page of the kernel half: its PD entry is present with PS set, the entries above it are
present, that of the PDPT without PS, and the base is the entry masked to 2MB. -/
structure IsKernelMb (m : Machine) (cr3 : U64) (x : MbLeaf) : Prop where
  i_range : 256 ≤ x.i ∧ x.i < 512
  j_lt : x.j < 512
  k_lt : x.k < 512
  pml4_present : (pml4Word m cr3 x.i).getLsbD 0 = true
  pdpt_present : (pdptWord m cr3 x.i x.j).getLsbD 0 = true
  pdpt_table : (pdptWord m cr3 x.i x.j).getLsbD 7 = false
  entry_eq : x.entry = pdWord m cr3 x.i x.j x.k
  present : x.entry.getLsbD 0 = true
  large : x.entry.getLsbD 7 = true
  physBase_eq : x.physBase = x.entry &&& field 64 21 52

/-- A large page of the kernel half. -/
def IsKernelLeaf (m : Machine) (cr3 : U64) : HugeLeaf → Prop
  | .gb x => IsKernelGb m cr3 x
  | .mb x => IsKernelMb m cr3 x

/-- The 2MB page of an entry of a PD table, if it is one. -/
def pdLeaf (m : Machine) (cr3 : U64) (i j k : ℕ) : List HugeLeaf :=
  if (pdWord m cr3 i j k).getLsbD 0 = true ∧ (pdWord m cr3 i j k).getLsbD 7 = true then
    [.mb ⟨i, j, k, pdWord m cr3 i j k, pdWord m cr3 i j k &&& huge2MMask⟩]
  else []

/-- The 1GB page of an entry of a PDPT table, if it is one. -/
def pdptLeaf (m : Machine) (cr3 : U64) (i j : ℕ) : List GbLeaf :=
  if (pdptWord m cr3 i j).getLsbD 0 = true ∧ (pdptWord m cr3 i j).getLsbD 7 = true then
    [⟨i, j, pdptWord m cr3 i j, pdptWord m cr3 i j &&& huge1GMask⟩]
  else []

/-- The large pages under an entry of a PDPT table. -/
def pdptLeaves (m : Machine) (cr3 : U64) (i j : ℕ) : List HugeLeaf :=
  if (pdptWord m cr3 i j).getLsbD 0 = true ∧ (pdptWord m cr3 i j).getLsbD 7 = false then
    (List.range' 0 512).flatMap (pdLeaf m cr3 i j)
  else (pdptLeaf m cr3 i j).map .gb

/-- What a scan of the kernel half finds, when `leaves i j` is what it finds under the entry `j` of
the PDPT table under `i`. -/
def scanLeaves {α : Type} (m : Machine) (cr3 : U64) (leaves : ℕ → ℕ → List α) : List α :=
  (List.range' 256 256).flatMap fun i =>
    if (pml4Word m cr3 i).getLsbD 0 = true then (List.range' 0 512).flatMap (leaves i) else []

/-- The large pages of the kernel half. -/
def kernelLeaves (m : Machine) (cr3 : U64) : List HugeLeaf := scanLeaves m cr3 (pdptLeaves m cr3)

/-- The 1GB pages of the kernel half. -/
def kernelGbLeaves (m : Machine) (cr3 : U64) : List GbLeaf := scanLeaves m cr3 (pdptLeaf m cr3)

/-! ## The loops collect the leaves -/

/-- The word of the PML4 table, as the scanners read it. -/
theorem index_pml4 (m : Machine) (cr3 : U64) (i : ℕ) :
    m.index (m.va (cr3 &&& pteAddrMask)) (BitVec.ofNat 64 i) = pml4Word m cr3 i := by
  rw [Machine.index_va, pteAddrMask_eq]
  rfl

/-- The word of a PDPT table, as the scanners read it. -/
theorem index_pdpt (m : Machine) (cr3 : U64) (i j : ℕ) :
    m.index (m.va (pml4Word m cr3 i &&& pteAddrMask)) (BitVec.ofNat 64 j) = pdptWord m cr3 i j := by
  rw [Machine.index_va, pteAddrMask_eq]
  rfl

/-- The word of a PD table, as the scanners read it. -/
theorem index_pd (m : Machine) (cr3 : U64) (i j k : ℕ) :
    m.index (m.va (pdptWord m cr3 i j &&& pteAddrMask)) (BitVec.ofNat 64 k) =
      pdWord m cr3 i j k := by
  rw [Machine.index_va, pteAddrMask_eq]
  rfl

/-- `demo_huge_show` goes on below its limit of ten. -/
theorem hugeBelow_iff (s : Tally HugeLeaf) : hugeBelow s = true ↔ ¬ Tally.Full (some 10) s := by
  simp [hugeBelow, Tally.Full]

/-- `demo_walk1gb_show` has no limit. -/
theorem always_iff (s : Tally GbLeaf) : always s = true ↔ ¬ Tally.Full none s := by
  simp [always, Tally.Full]

/-- The body of the loop over a PD table collects the 2MB page of its entry. -/
theorem hugePdBody_leaves (m : Machine) (cr3 : U64) (i j k : ℕ) (xs : List HugeLeaf)
    (s : Tally HugeLeaf) (h : Tally.Holds (some 10) xs s) (hf : ¬ Tally.Full (some 10) s) :
    Tally.Leaves (some 10) (xs ++ pdLeaf m cr3 i j k)
      (hugePdBody m (m.va (pdptWord m cr3 i j &&& pteAddrMask)) i j k s) := by
  simp only [hugePdBody, index_pd, pdLeaf, BitField.and_one_eq_zero_iff, ne_eq,
    BitVec.getLsbD_ushiftRight, Nat.add_zero, Bool.not_eq_false]
  generalize pdWord m cr3 i j k = e
  cases h0 : e.getLsbD 0 with
  | false => simpa [Tally.Leaves] using h
  | true =>
    cases h7 : e.getLsbD 7 with
    | false => simpa [Tally.Leaves] using h
    | true =>
      have hpush := h.push hf (.mb ⟨i, j, k, e, e &&& huge2MMask⟩)
      by_cases hc : 10 ≤ (s.push (.mb ⟨i, j, k, e, e &&& huge2MMask⟩)).count
      · simpa [Tally.Leaves, hc] using ⟨hpush, 10, rfl, hc⟩
      · simpa [Tally.Leaves, hc] using hpush

/-- The body of the loop of `demo_huge_show` over a PDPT table collects the pages under its
entry. -/
theorem hugePdptBody_leaves (m : Machine) (cr3 : U64) (i j : ℕ) (xs : List HugeLeaf)
    (s : Tally HugeLeaf) (h : Tally.Holds (some 10) xs s) (hf : ¬ Tally.Full (some 10) s) :
    Tally.Leaves (some 10) (xs ++ pdptLeaves m cr3 i j)
      (hugePdptBody m (m.va (pml4Word m cr3 i &&& pteAddrMask)) i j s) := by
  have hloop := Tally.holds_forLoop hugeBelow_iff 512 0 (hugePdBody_leaves m cr3 i j) h
  simp only [hugePdptBody, index_pdpt, pdptLeaves, pdptLeaf, BitField.and_one_eq_zero_iff, ne_eq,
    BitVec.getLsbD_ushiftRight, Nat.add_zero, Bool.not_eq_false]
  generalize pdptWord m cr3 i j = e at hloop ⊢
  cases h0 : e.getLsbD 0 with
  | false => simpa [Tally.Leaves] using h
  | true =>
    cases h7 : e.getLsbD 7 with
    | false => simpa [Tally.Leaves] using hloop
    | true => simpa [Tally.Leaves] using h.push hf (.gb ⟨i, j, e, e &&& huge1GMask⟩)

/-- The body of the loop of `demo_walk1gb_show` over a PDPT table collects the page of its entry. -/
theorem walk1gbPdptBody_leaves (m : Machine) (cr3 : U64) (i j : ℕ) (xs : List GbLeaf)
    (s : Tally GbLeaf) (h : Tally.Holds none xs s) (hf : ¬ Tally.Full none s) :
    Tally.Leaves none (xs ++ pdptLeaf m cr3 i j)
      (walk1gbPdptBody m (m.va (pml4Word m cr3 i &&& pteAddrMask)) i j s) := by
  simp only [walk1gbPdptBody, index_pdpt, pdptLeaf, BitField.and_one_eq_zero_iff, ne_eq,
    BitVec.getLsbD_ushiftRight, Nat.add_zero, Bool.not_eq_false]
  generalize pdptWord m cr3 i j = e
  cases h0 : e.getLsbD 0 with
  | false => simpa [Tally.Leaves] using h
  | true =>
    cases h7 : e.getLsbD 7 with
    | false => simpa [Tally.Leaves] using h
    | true => simpa [Tally.Leaves] using h.push hf ⟨i, j, e, e &&& huge1GMask⟩

/-- A scanner whose loop over a PDPT table collects `leaves` collects the scan of the kernel
half. -/
theorem scan_holds {α : Type} (m : Machine) (cr3 : U64) {cap : Option ℕ} {cond : Tally α → Bool}
    (hcond : ∀ s, cond s = true ↔ ¬ Tally.Full cap s)
    {pdptBody : U64 → ℕ → ℕ → Tally α → Flow (Tally α)} {leaves : ℕ → ℕ → List α}
    (hbody : ∀ i j xs s, Tally.Holds cap xs s → ¬ Tally.Full cap s →
      Tally.Leaves cap (xs ++ leaves i j)
        (pdptBody (m.va (pml4Word m cr3 i &&& pteAddrMask)) i j s)) :
    Tally.Holds cap (scanLeaves m cr3 leaves)
      (forLoop cond (scanPml4Body m cond pdptBody (m.va (cr3 &&& pteAddrMask))) 256 256
        Tally.empty) := by
  have hstep : ∀ i xs s, Tally.Holds cap xs s → ¬ Tally.Full cap s →
      Tally.Leaves cap (xs ++ if (pml4Word m cr3 i).getLsbD 0 = true then
          (List.range' 0 512).flatMap (leaves i) else [])
        (scanPml4Body m cond pdptBody (m.va (cr3 &&& pteAddrMask)) i s) := by
    intro i xs s h _
    have hloop := Tally.holds_forLoop hcond 512 0 (hbody i) h
    simp only [scanPml4Body, index_pml4, BitField.and_one_eq_zero_iff]
    cases h0 : (pml4Word m cr3 i).getLsbD 0 with
    | false =>
      simp only [if_true, Bool.false_eq_true, if_false, List.append_nil]
      exact h
    | true =>
      simp only [Bool.true_eq_false, if_false, if_true]
      exact hloop
  have hscan := Tally.holds_forLoop hcond 256 256 hstep (Tally.holds_empty cap)
  rw [List.nil_append] at hscan
  exact hscan

/-- `demo_huge_show` prints the first ten large pages of the kernel half and counts them. -/
theorem demoHugeShow_found (m : Machine) (cr3 : U64) :
    (demoHugeShow m cr3).found = (kernelLeaves m cr3).take 10 ∧
      (demoHugeShow m cr3).total = (demoHugeShow m cr3).found.length :=
  scan_holds m cr3 hugeBelow_iff (hugePdptBody_leaves m cr3)

/-- `demo_walk1gb_show` prints the 1GB pages of the kernel half and counts them. -/
theorem demoWalk1gbShow_found (m : Machine) (cr3 : U64) :
    (demoWalk1gbShow m cr3).found = kernelGbLeaves m cr3 ∧
      (demoWalk1gbShow m cr3).total = (demoWalk1gbShow m cr3).found.length :=
  scan_holds m cr3 always_iff (walk1gbPdptBody_leaves m cr3)

/-! ## The leaves are those of the tables, in order -/

/-- `HUGE_1GB_MASK` keeps the bits 51 to 30. -/
theorem huge1GMask_eq : huge1GMask = field 64 30 52 := by decide

/-- `HUGE_2MB_MASK` keeps the bits 51 to 21. -/
theorem huge2MMask_eq : huge2MMask = field 64 21 52 := by decide

/-- What a scan finds, it finds under a present entry of the kernel half of the PML4 table. -/
theorem mem_scanLeaves {α : Type} {m : Machine} {cr3 : U64} {leaves : ℕ → ℕ → List α} {x : α} :
    x ∈ scanLeaves m cr3 leaves ↔ ∃ i j, (256 ≤ i ∧ i < 512) ∧ j < 512 ∧
      (pml4Word m cr3 i).getLsbD 0 = true ∧ x ∈ leaves i j := by
  simp only [scanLeaves, List.mem_flatMap, List.mem_range'_1]
  constructor
  · rintro ⟨i, hi, hx⟩
    split_ifs at hx with h0
    · obtain ⟨j, hj, hx⟩ := List.mem_flatMap.mp hx
      rw [List.mem_range'_1] at hj
      exact ⟨i, j, by omega, by omega, h0, hx⟩
    · simp at hx
  · rintro ⟨i, j, hi, hj, h0, hx⟩
    refine ⟨i, by omega, ?_⟩
    rw [if_pos h0]
    exact List.mem_flatMap.mpr ⟨j, List.mem_range'_1.mpr (by omega), hx⟩

/-- The 1GB page of an entry of a PDPT table. -/
theorem mem_pdptLeaf {m : Machine} {cr3 : U64} {i j : ℕ} {x : GbLeaf} :
    x ∈ pdptLeaf m cr3 i j ↔
      ((pdptWord m cr3 i j).getLsbD 0 = true ∧ (pdptWord m cr3 i j).getLsbD 7 = true) ∧
        x = ⟨i, j, pdptWord m cr3 i j, pdptWord m cr3 i j &&& field 64 30 52⟩ := by
  unfold pdptLeaf
  rw [huge1GMask_eq]
  split_ifs with h
  · simp only [h, and_self, true_and, List.mem_singleton]
  · simp only [h, false_and, List.not_mem_nil]

/-- The 2MB page of an entry of a PD table. -/
theorem mem_pdLeaf {m : Machine} {cr3 : U64} {i j k : ℕ} {x : HugeLeaf} :
    x ∈ pdLeaf m cr3 i j k ↔
      ((pdWord m cr3 i j k).getLsbD 0 = true ∧ (pdWord m cr3 i j k).getLsbD 7 = true) ∧
        x = .mb ⟨i, j, k, pdWord m cr3 i j k, pdWord m cr3 i j k &&& field 64 21 52⟩ := by
  unfold pdLeaf
  rw [huge2MMask_eq]
  split_ifs with h
  · simp only [h, and_self, true_and, List.mem_singleton]
  · simp only [h, false_and, List.not_mem_nil]

/-- The 1GB pages of the kernel half. -/
theorem mem_kernelGbLeaves {m : Machine} {cr3 : U64} {x : GbLeaf} :
    x ∈ kernelGbLeaves m cr3 ↔ IsKernelGb m cr3 x := by
  unfold kernelGbLeaves
  rw [mem_scanLeaves]
  constructor
  · rintro ⟨i, j, hi, hj, h0, hx⟩
    obtain ⟨⟨hp, hs⟩, rfl⟩ := mem_pdptLeaf.mp hx
    exact ⟨hi, hj, h0, rfl, hp, hs, rfl⟩
  · obtain ⟨i, j, e, b⟩ := x
    rintro ⟨hi, hj, h0, he, hp, hs, hb⟩
    dsimp only at he hp hs hb hi hj h0
    subst he hb
    exact ⟨i, j, hi, hj, h0, mem_pdptLeaf.mpr ⟨⟨hp, hs⟩, rfl⟩⟩

/-- A 1GB page of an entry of a PDPT table, among the large pages under it. -/
theorem gb_mem_pdptLeaves {m : Machine} {cr3 : U64} {i j : ℕ} {x : GbLeaf} :
    .gb x ∈ pdptLeaves m cr3 i j ↔ x ∈ pdptLeaf m cr3 i j := by
  unfold pdptLeaves
  split_ifs with h
  · have hno : x ∉ pdptLeaf m cr3 i j := by
      rw [mem_pdptLeaf, h.2]
      simp
    simp [mem_pdLeaf, hno]
  · simp

/-- A 2MB page among the large pages under an entry of a PDPT table. -/
theorem mb_mem_pdptLeaves {m : Machine} {cr3 : U64} {i j : ℕ} {x : MbLeaf} :
    .mb x ∈ pdptLeaves m cr3 i j ↔
      ((pdptWord m cr3 i j).getLsbD 0 = true ∧ (pdptWord m cr3 i j).getLsbD 7 = false) ∧
        ∃ k < 512, .mb x ∈ pdLeaf m cr3 i j k := by
  unfold pdptLeaves
  split_ifs with h
  · simp only [List.mem_flatMap, List.mem_range'_1, h, and_self, true_and]
    constructor
    · rintro ⟨k, hk, hx⟩
      exact ⟨k, by omega, hx⟩
    · rintro ⟨k, hk, hx⟩
      exact ⟨k, by omega, hx⟩
  · simp only [h, false_and, List.mem_map, reduceCtorEq, and_false, exists_false]

/-- The large pages of the kernel half. -/
theorem mem_kernelLeaves {m : Machine} {cr3 : U64} {x : HugeLeaf} :
    x ∈ kernelLeaves m cr3 ↔ IsKernelLeaf m cr3 x := by
  unfold kernelLeaves
  rw [mem_scanLeaves]
  cases x with
  | gb x =>
    simp only [gb_mem_pdptLeaves]
    exact mem_scanLeaves.symm.trans mem_kernelGbLeaves
  | mb x =>
    simp only [mb_mem_pdptLeaves, mem_pdLeaf, HugeLeaf.mb.injEq]
    constructor
    · rintro ⟨i, j, hi, hj, h0, htab, k, hk, ⟨hp, hs⟩, rfl⟩
      exact ⟨hi, hj, hk, h0, htab.1, htab.2, rfl, hp, hs, rfl⟩
    · obtain ⟨i, j, k, e, b⟩ := x
      rintro ⟨hi, hj, hk, h0, hp', hs', he, hp, hs, hb⟩
      dsimp only at he hp hs hb hi hj hk h0 hp' hs'
      subst he hb
      exact ⟨i, j, hi, hj, h0, ⟨hp', hs'⟩, k, hk, ⟨hp, hs⟩, rfl⟩

/-- A scan whose items under each entry of a PDPT table are sorted finds sorted items. -/
theorem sorted_scanLeaves {α : Type} {key : α → List ℕ} (m : Machine) (cr3 : U64)
    {leaves : ℕ → ℕ → List α} (h : ∀ i j, Loop.Sorted key [i, j] (leaves i j)) :
    Loop.Sorted key [] (scanLeaves m cr3 leaves) := by
  refine Loop.sorted_flatMap (fun i => ?_) 256 256
  split_ifs
  · exact Loop.sorted_flatMap (h i) 0 512
  · exact Loop.sorted_nil key _

/-- The large pages under an entry of a PDPT table are in the order of their indices. -/
theorem sorted_pdptLeaves (m : Machine) (cr3 : U64) (i j : ℕ) :
    Loop.Sorted HugeLeaf.key [i, j] (pdptLeaves m cr3 i j) := by
  unfold pdptLeaves
  split_ifs
  · refine Loop.sorted_flatMap (fun k => ?_) 0 512
    unfold pdLeaf
    split_ifs
    · exact Loop.sorted_singleton rfl
    · exact Loop.sorted_nil _ _
  · unfold pdptLeaf
    split_ifs
    · exact Loop.sorted_singleton rfl
    · exact Loop.sorted_nil _ _

/-- The large pages of the kernel half are in the order of their indices. -/
theorem kernelLeaves_pairwise (m : Machine) (cr3 : U64) :
    (kernelLeaves m cr3).Pairwise fun x y => x.key < y.key :=
  (sorted_scanLeaves m cr3 (sorted_pdptLeaves m cr3)).2

/-- The 1GB pages of the kernel half are in the order of their indices. -/
theorem kernelGbLeaves_pairwise (m : Machine) (cr3 : U64) :
    (kernelGbLeaves m cr3).Pairwise fun x y => x.key < y.key := by
  refine (sorted_scanLeaves m cr3 fun i j => ?_).2
  unfold pdptLeaf
  split_ifs
  · exact Loop.sorted_singleton rfl
  · exact Loop.sorted_nil _ _

/-- The scan of `demo_huge_show` is exact. There is one list of all large pages of the kernel half,
each once and in the order of PML4, PDPT and PD index, and the scan prints its first ten, and their
number. -/
theorem demoHugeShow_exact (m : Machine) (cr3 : U64) :
    ∃ all : List HugeLeaf,
      (∀ x, x ∈ all ↔ IsKernelLeaf m cr3 x) ∧
      (all.Pairwise fun x y => x.key < y.key) ∧
      (demoHugeShow m cr3).found = all.take (min 10 all.length) ∧
      (demoHugeShow m cr3).total = (demoHugeShow m cr3).found.length := by
  obtain ⟨hfound, htotal⟩ := demoHugeShow_found m cr3
  refine ⟨kernelLeaves m cr3, fun x => mem_kernelLeaves, kernelLeaves_pairwise m cr3, ?_, htotal⟩
  rw [hfound, List.take_eq_take_min]

end KernelPortfolio
