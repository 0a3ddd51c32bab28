import KernelPortfolio.Paging.Hardware

/-!
# The tracing walker of `demo_07_walk_4kb/walk4kb_driver.c`

`walkVa` is `walk_va` with the value of CR3 as an argument: the lines that it prints. What it
reports is read off those lines (`Report.ofLines`), and `walkVa_report` shows that it is the
translation of the address by the four-level walk.
-/

namespace KernelPortfolio

/-- The lines that `walk_va` prints. -/
inductive WalkLine where
  | rule
  | va (addr : U64)
  | indices (pml4 pdpt pd pt off : U64)
  | entry (l : PtLevel) (idx table e : U64)
  | notPresent
  | next (l : PtLevel) (phys : U64)
  | huge1G (phys : U64)
  | huge2M (phys : U64)
  | page4K (base : U64)
  | final (base off phys : U64)
  deriving DecidableEq, Repr

/-- `walk_va`, on the value of CR3 that it reads. -/
def walkVa (m : Machine) (cr3 va : U64) : List WalkLine :=
  let tablePhys := cr3 &&& pteAddrMask
  let pml4Idx := (va >>> 39) &&& 0x1FF
  let pdptIdx := (va >>> 30) &&& 0x1FF
  let pdIdx := (va >>> 21) &&& 0x1FF
  let ptIdx := (va >>> 12) &&& 0x1FF
  let offset := va &&& 0xFFF
  [.rule, .va va, .rule, .indices pml4Idx pdptIdx pdIdx ptIdx offset] ++
  -- Level 4: PML4
  let entry := m.index (m.va tablePhys) pml4Idx
  .entry .pml4 pml4Idx tablePhys entry ::
  if entry &&& 1 = 0 then [.notPresent] else
  let tablePhys := entry &&& pteAddrMask
  .next .pml4 tablePhys ::
  -- Level 3: PDPT
  let entry := m.index (m.va tablePhys) pdptIdx
  .entry .pdpt pdptIdx tablePhys entry ::
  if entry &&& 1 = 0 then [.notPresent] else
  if (entry >>> 7) &&& 1 ≠ 0 then
    [.huge1G ((entry &&& 0x000FFFFFC0000000) ||| (va &&& 0x3FFFFFFF))] else
  let tablePhys := entry &&& pteAddrMask
  .next .pdpt tablePhys ::
  -- Level 2: PD
  let entry := m.index (m.va tablePhys) pdIdx
  .entry .pd pdIdx tablePhys entry ::
  if entry &&& 1 = 0 then [.notPresent] else
  if (entry >>> 7) &&& 1 ≠ 0 then
    [.huge2M ((entry &&& 0x000FFFFFFFE00000) ||| (va &&& 0x1FFFFF))] else
  let tablePhys := entry &&& pteAddrMask
  .next .pd tablePhys ::
  -- Level 1: PT, where the PS bit is ignored
  let entry := m.index (m.va tablePhys) ptIdx
  .entry .pt ptIdx tablePhys entry ::
  if entry &&& 1 = 0 then [.notPresent] else
  let pagePhys := entry &&& pteAddrMask
  let finalPhys := pagePhys ||| offset
  [.page4K pagePhys, .final pagePhys offset finalPhys]

/-- What the printed lines report: an absent entry at the level of the last entry line, or the final
physical address with the size of its page. -/
def Report.ofLines : List WalkLine → Option Report
  | .entry l _ _ _ :: .notPresent :: _ => some (.notPresent l)
  | .huge1G phys :: _ => some (.translated .pdpt phys)
  | .huge2M phys :: _ => some (.translated .pd phys)
  | .final _ _ phys :: _ => some (.translated .pt phys)
  | _ :: lines => Report.ofLines lines
  | [] => none

/-- `walk_va` reports the translation of the address. -/
theorem walkVa_report (m : Machine) (cr3 va : U64) :
    Report.ofLines (walkVa m cr3 va) = hwReport m (frame cr3) va := by
  simp only [walkVa, Machine.index_va, phys_pml4, phys_pdpt, phys_pd, phys_pt,
    BitField.and_one_eq_zero_iff, BitVec.getLsbD_ushiftRight, Nat.add_zero, ne_eq,
    Bool.not_eq_false, huge1G_eq, huge2M_eq, page4K_eq, hwReport, hwWalk_eq]
  split_ifs <;> rfl

/-- `walk_va` computes the four-level translation: it reports the outcome of the reference walk, and
on a leaf of `2^s` bytes the reported address is the entry's bits 51 to `s` above the low `s` bits
of the address. That address is a 52-bit number, and every address that agrees on the bits from `s`
to 47 is reported through the same leaf, at the same base. -/
theorem walkVa_translates (m : Machine) (cr3 va : U64) :
    Report.ofLines (walkVa m cr3 va) = hwReport m (frame cr3) va ∧
    ∀ l e, hwWalk m (frame cr3) va = .leaf l e →
      leafAddr l e va < 2^52 ∧
      Report.ofLines (walkVa m cr3 va) =
        some (.translated l (BitVec.ofNat 64 (leafAddr l e va))) ∧
      ∀ va', (∀ i, l.shift ≤ i → i < 48 → va'.getLsbD i = va.getLsbD i) →
        hwWalk m (frame cr3) va' = .leaf l e ∧
        Report.ofLines (walkVa m cr3 va') =
          some (.translated l (BitVec.ofNat 64 (leafAddr l e va'))) := by
  refine ⟨walkVa_report m cr3 va, fun l e hw => ⟨leafAddr_lt l e va, ?_, fun va' h => ?_⟩⟩
  · rw [walkVa_report, hwReport, hw]
  · have hw' := hwWalk_leaf_congr hw h
    refine ⟨hw', ?_⟩
    rw [walkVa_report, hwReport, hw']

end KernelPortfolio
