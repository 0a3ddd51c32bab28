import KernelPortfolio.Paging.WalkVa

/-!
# The 2MB walker of `demo_08_walk_2mb/walk2mb_driver.c`

`demoWalk2mbShow` is `demo_walk2mb_show` with the address and the value of CR3 as arguments: the
lines that it prints. It walks three levels and leaves the fourth out. `demoWalk2mbShow_agrees`
compares what it prints with what the tracing walker reports.
-/

namespace KernelPortfolio

/-- `HUGE_2MB_MASK`. -/
def walk2mbMask : U64 := 0x000FFFFFFFE00000

/-- The lines that `demo_walk2mb_show` prints. -/
inductive Walk2mbLine where
  | rule
  | title
  | va (addr : U64)
  | indices (pml4 pdpt pd : U64)
  | entry (l : PtLevel) (idx e : U64)
  | notPresent
  | next (l : PtLevel) (phys : U64)
  | huge1G
  | bit7 (e ps : U64)
  | huge2M
  | calculation
  | pageBase (base : U64)
  | offset (off : U64)
  | final (base off phys : U64)
  | levels
  | reads
  | continues
  deriving DecidableEq, Repr

/-- `demo_walk2mb_show`, on the address and the value of CR3 that it reads. -/
def demoWalk2mbShow (m : Machine) (cr3 va : U64) : List Walk2mbLine :=
  let tablePhys := cr3 &&& pteAddrMask
  let pml4Idx := (va >>> 39) &&& 0x1FF
  let pdptIdx := (va >>> 30) &&& 0x1FF
  let pdIdx := (va >>> 21) &&& 0x1FF
  [.rule, .title, .rule, .va va, .indices pml4Idx pdptIdx pdIdx] ++
  -- L4: PML4
  let entry := m.index (m.va tablePhys) pml4Idx
  .entry .pml4 pml4Idx entry ::
  if entry &&& 1 = 0 then [.notPresent] else
  let tablePhys := entry &&& pteAddrMask
  .next .pml4 tablePhys ::
  -- L3: PDPT
  let entry := m.index (m.va tablePhys) pdptIdx
  .entry .pdpt pdptIdx entry ::
  if entry &&& 1 = 0 then [.notPresent] else
  if (entry >>> 7) &&& 1 ≠ 0 then [.huge1G] else
  let tablePhys := entry &&& pteAddrMask
  .next .pdpt tablePhys ::
  -- L2: PD
  let entry := m.index (m.va tablePhys) pdIdx
  .entry .pd pdIdx entry ::
  if entry &&& 1 = 0 then [.notPresent] else
  let psBit := (entry >>> 7) &&& 1
  .bit7 entry psBit ::
  if psBit ≠ 0 then
    let pageBase := entry &&& walk2mbMask
    let offset21 := va &&& 0x1FFFFF
    [.huge2M, .calculation, .pageBase pageBase, .offset offset21,
      .final pageBase offset21 (pageBase ||| offset21), .levels, .reads]
  else [.continues]

/-- The lines of `demo_walk2mb_show` on the entries of the translation. -/
theorem demoWalk2mbShow_eq (m : Machine) (cr3 va : U64) :
    demoWalk2mbShow m cr3 va =
      let e4 := pml4Entry m (frame cr3) va
      let e3 := pdptEntry m (frame cr3) va
      let e2 := pdEntry m (frame cr3) va
      .rule :: .title :: .rule :: .va va ::
      .indices ((va >>> 39) &&& 0x1FF) ((va >>> 30) &&& 0x1FF) ((va >>> 21) &&& 0x1FF) ::
      .entry .pml4 ((va >>> 39) &&& 0x1FF) e4 ::
      if e4.getLsbD 0 = false then [.notPresent] else
      .next .pml4 (e4 &&& pteAddrMask) :: .entry .pdpt ((va >>> 30) &&& 0x1FF) e3 ::
      if e3.getLsbD 0 = false then [.notPresent] else
      if e3.getLsbD 7 = true then [.huge1G] else
      .next .pdpt (e3 &&& pteAddrMask) :: .entry .pd ((va >>> 21) &&& 0x1FF) e2 ::
      if e2.getLsbD 0 = false then [.notPresent] else
      .bit7 e2 ((e2 >>> 7) &&& 1) ::
      if e2.getLsbD 7 = true then
        [.huge2M, .calculation, .pageBase (e2 &&& walk2mbMask), .offset (va &&& 0x1FFFFF),
          .final (e2 &&& walk2mbMask) (va &&& 0x1FFFFF) (BitVec.ofNat 64 (leafAddr .pd e2 va)),
          .levels, .reads]
      else [.continues] := by
  simp only [demoWalk2mbShow, walk2mbMask, Machine.index_va, phys_pml4, phys_pdpt, phys_pd,
    BitField.and_one_eq_zero_iff, BitVec.getLsbD_ushiftRight, Nat.add_zero, ne_eq,
    Bool.not_eq_false, huge2M_eq, List.cons_append, List.nil_append]

/-- `walk_va` reads an entry of the last level exactly when the translation ends at that level. -/
theorem walkVa_entry_pt_iff (m : Machine) (cr3 va : U64) :
    (∃ idx table e, .entry .pt idx table e ∈ walkVa m cr3 va) ↔
      ∃ r, hwReport m (frame cr3) va = some r ∧
        (r = .notPresent .pt ∨ ∃ phys, r = .translated .pt phys) := by
  simp only [walkVa, Machine.index_va, phys_pml4, phys_pdpt, phys_pd, phys_pt,
    BitField.and_one_eq_zero_iff, BitVec.getLsbD_ushiftRight, Nat.add_zero, ne_eq,
    Bool.not_eq_false, hwReport, hwWalk_eq]
  split_ifs <;> simp

section

variable {m : Machine} {cr3 va : U64}

/-- A final physical address is printed for a 2MB page. -/
theorem final_mem_iff {p : U64} :
    (∃ base off, .final base off p ∈ demoWalk2mbShow m cr3 va) ↔
      hwReport m (frame cr3) va = some (.translated .pd p) := by
  rw [demoWalk2mbShow_eq, hwReport, hwWalk_eq]
  dsimp only
  split_ifs <;> simp [eq_comm]

/-- NOT PRESENT is printed below the line of an absent entry above the last level. -/
theorem notPresent_infix_iff {l : PtLevel} :
    (∃ idx e, [.entry l idx e, .notPresent] <:+: demoWalk2mbShow m cr3 va) ↔
      l ≠ .pt ∧ hwReport m (frame cr3) va = some (.notPresent l) := by
  rw [demoWalk2mbShow_eq, hwReport, hwWalk_eq]
  dsimp only
  split_ifs <;> simp [List.infix_cons_iff] <;> cases l <;> simp

/-- The message of a 1GB page is printed for one. -/
theorem huge1G_mem_iff :
    .huge1G ∈ demoWalk2mbShow m cr3 va ↔
      ∃ p, hwReport m (frame cr3) va = some (.translated .pdpt p) := by
  rw [demoWalk2mbShow_eq, hwReport, hwWalk_eq]
  dsimp only
  split_ifs <;> simp

/-- The walk would go on when the translation ends at the last level. -/
theorem continues_mem_iff :
    .continues ∈ demoWalk2mbShow m cr3 va ↔
      ∃ r, hwReport m (frame cr3) va = some r ∧
        (r = .notPresent .pt ∨ ∃ phys, r = .translated .pt phys) := by
  rw [demoWalk2mbShow_eq, hwReport, hwWalk_eq]
  dsimp only
  split_ifs <;> simp

end

/-- The 2MB walker agrees with the tracing walker, for every address, CR3 and memory. It prints a
final physical address exactly when the tracing walker reports it for a 2MB page, NOT PRESENT at a
level above the last exactly when the tracing walker stops there, the message of a 1GB page exactly
when the tracing walker reports one, and that it would go on exactly when the tracing walker reads
an entry of the last level. -/
theorem demoWalk2mbShow_agrees (m : Machine) (cr3 va : U64) :
    (∀ p, (∃ base off, .final base off p ∈ demoWalk2mbShow m cr3 va) ↔
      Report.ofLines (walkVa m cr3 va) = some (.translated .pd p)) ∧
    (∀ l, (∃ idx e, [.entry l idx e, .notPresent] <:+: demoWalk2mbShow m cr3 va) ↔
      l ≠ .pt ∧ Report.ofLines (walkVa m cr3 va) = some (.notPresent l)) ∧
    (.huge1G ∈ demoWalk2mbShow m cr3 va ↔
      ∃ p, Report.ofLines (walkVa m cr3 va) = some (.translated .pdpt p)) ∧
    (.continues ∈ demoWalk2mbShow m cr3 va ↔
      ∃ idx table e, .entry .pt idx table e ∈ walkVa m cr3 va) := by
  rw [walkVa_report, walkVa_entry_pt_iff]
  exact ⟨fun p => final_mem_iff, fun l => notPresent_infix_iff, huge1G_mem_iff, continues_mem_iff⟩

end KernelPortfolio
