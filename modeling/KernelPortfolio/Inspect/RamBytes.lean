import KernelPortfolio.Inspect.Canonical

/-!
# The bytes that `mm_exercise_hw.c` copies

At the end of its walk the module copies 16 bytes from the direct map, from the physical address of
`va` on. `tracePageTableWalk_copiesPage_iff` says when these are the bytes at `va` to `va + 15` in
the process, all of the page that the entry of `va` maps. Nothing in the module looks at the end of
the page.
-/

namespace KernelPortfolio

open BitField (field)

/-- A process with the address space `mm` reads the byte `b` at `va`. -/
def Kernel.ReadsByte (k : Kernel) (mm : Mm) (va : U64) (b : BitVec 8) : Prop :=
  Canonical va ∧ ∃ l e, hwWalk k.machine (k.root mm) va = .leaf l e ∧
    b = k.machine.byte (BitVec.ofNat 64 (leafAddr l e va))

/-- The physical address is in the page that the entry maps. -/
def InPage (e x : U64) : Prop := ∃ o < 4096, x = frame e + BitVec.ofNat 64 o

/-- For a present last-level entry, the bytes that the walk copies are the 16 bytes that the process
reads from `va` on, and all of them are in the page that the entry maps. -/
def CopiesPage (k : Kernel) (pid : CInt) (va : U64) : Prop :=
  ∀ mm ∈ k.walkMm pid, ∀ e ∈ k.lastEntry mm va, e.getLsbD 0 = true →
    ∀ kva bytes, .ram kva bytes ∈ tracePageTableWalk k pid va →
      bytes.length = 16 ∧ ∀ i (h : i < bytes.length),
        k.ReadsByte mm (va + BitVec.ofNat 64 i) bytes[i] ∧
        InPage e (kva + BitVec.ofNat 64 i - k.machine.pageOffsetBase)

/-- The kernel calls the frame of the entry valid, and the address of `va` in the direct map, and so
the walk copies. -/
def Kernel.Copies (k : Kernel) (e va : U64) : Prop :=
  k.pfnValid (ptePfn e) = true ∧
    k.virtAddrValid (k.machine.va (BitVec.ofNat 64 (leafAddr .pt e va))) = true

/-! ## What the walk copies -/

/-- The address that the walk computes from a present entry is the one that its page gives. -/
theorem phys_of_present {e : U64} (h : e.getLsbD 0 = true) (va : U64) :
    (ptePfn e <<< 12) ||| (va &&& ~~~pageMask) = BitVec.ofNat 64 (leafAddr .pt e va) := by
  have hmask : (~~~pageMask : U64) = 0xFFF := by decide
  have hne : e ≠ 0 := by
    rintro rfl
    exact absurd h (by decide)
  rw [hmask, ptePfn_shift, if_neg hne, mappedFrame, if_pos h, ← page4K_eq, pteAddrMask_eq]
  rfl

/-- The copy of the walk, for a present entry. -/
theorem ram_mem_tracePageTableWalk {k : Kernel} {pid : CInt} {va e : U64} {mm : Mm}
    (hmm : k.walkMm pid = some mm) (he : k.lastEntry mm va = some e) (h : e.getLsbD 0 = true)
    (kva : U64) (bytes : List (BitVec 8)) :
    .ram kva bytes ∈ tracePageTableWalk k pid va ↔
      k.Copies e va ∧ kva = k.machine.va (BitVec.ofNat 64 (leafAddr .pt e va)) ∧
        bytes = (List.range 16).map fun i => k.machine.loadByte (kva + BitVec.ofNat 64 i) := by
  have hshown : .ram kva bytes ∈ tracePageTableWalk k pid va ↔
      .ram kva bytes ∈ shown (tracePageTableWalk k pid va) :=
    (List.mem_filter.trans (and_iff_left rfl)).symm
  rw [hshown, shown_tracePageTableWalk, hmm]
  simp only [shown_traceLevels, he, shown_tracePte, phys_of_present h]
  by_cases hpfn : k.pfnValid (ptePfn e) = false
  · simp [Kernel.Copies, hpfn]
  by_cases hlinear : k.virtAddrValid (k.machine.va (BitVec.ofNat 64 (leafAddr .pt e va))) = true
  · have hcopies : k.Copies e va := ⟨Bool.eq_true_of_not_eq_false hpfn, hlinear⟩
    rw [if_neg hpfn, if_pos hlinear]
    simp only [hcopies, List.mem_cons, reduceCtorEq, Event.ram.injEq, List.not_mem_nil, or_false,
      false_or, true_and]
    constructor <;> (rintro ⟨rfl, rfl⟩; exact ⟨rfl, rfl⟩)
  · simp [Kernel.Copies, hpfn, hlinear]

/-! ## Addresses in one page -/

section InPage

variable {va : U64} {i : ℕ} (h : va.toNat % 4096 + i < 4096)

include h

/-- The address `i` bytes on, as a number. -/
theorem toNat_add_of_inPage : (va + BitVec.ofNat 64 i).toNat = va.toNat + i := by
  have hva := va.isLt
  rw [BitVec.toNat_add, BitVec.toNat_ofNat]
  omega

/-- It has the same bits above the offset in the page. -/
theorem getLsbD_add_of_inPage {j : ℕ} (hj : 12 ≤ j) :
    (va + BitVec.ofNat 64 i).getLsbD j = va.getLsbD j := by
  have hdiv : (va + BitVec.ofNat 64 i).toNat / 2^12 = va.toNat / 2^12 := by
    rw [toNat_add_of_inPage h]
    omega
  obtain ⟨d, rfl⟩ := Nat.exists_eq_add_of_le' hj
  have hbit := congrArg (Nat.testBit · d) hdiv
  simp only [Nat.testBit_div_two_pow] at hbit
  exact hbit

/-- It is canonical when `va` is. -/
theorem canonical_add_of_inPage (hva : Canonical va) : Canonical (va + BitVec.ofNat 64 i) := by
  intro j hj hj'
  rw [getLsbD_add_of_inPage h (by omega), getLsbD_add_of_inPage h (by omega)]
  exact hva j hj hj'

/-- Its page gives the physical address `i` bytes on. -/
theorem leafAddr_add_of_inPage (e : U64) :
    leafAddr .pt e (va + BitVec.ofNat 64 i) = leafAddr .pt e va + i := by
  rw [leafAddr_eq, leafAddr_eq, toNat_add_of_inPage h]
  simp only [PtLevel.shift]
  omega

/-- The byte there is the byte `i` bytes on in physical memory. -/
theorem Kernel.readsByte_add_of_inPage {k : Kernel} {mm : Mm} {e : U64} (hva : Canonical va)
    (hw : hwWalk k.machine (k.root mm) va = .leaf .pt e) :
    k.ReadsByte mm (va + BitVec.ofNat 64 i)
      (k.machine.byte (BitVec.ofNat 64 (leafAddr .pt e va) + BitVec.ofNat 64 i)) := by
  have hwi : hwWalk k.machine (k.root mm) (va + BitVec.ofNat 64 i) = .leaf .pt e :=
    hwWalk_leaf_congr hw fun j hj _ => getLsbD_add_of_inPage h hj
  refine ⟨canonical_add_of_inPage h hva, .pt, e, hwi, ?_⟩
  rw [leafAddr_add_of_inPage h, BitVec.ofNat_add]

end InPage

/-- The address of `va` in its page, and `i` bytes on, is in the page as long as the offset is. -/
theorem inPage_leafAddr_iff {e va : U64} {i : ℕ} (hi : i < 4096) :
    InPage e (BitVec.ofNat 64 (leafAddr .pt e va) + BitVec.ofNat 64 i) ↔
      va.toNat % 4096 + i < 4096 := by
  have hfield : e &&& field 64 PtLevel.pt.shift 52 = frame e := rfl
  have haddr : BitVec.ofNat 64 (leafAddr .pt e va) =
      frame e + BitVec.ofNat 64 (va.toNat % 4096) :=
    calc BitVec.ofNat 64 (leafAddr .pt e va)
        = BitVec.ofNat 64 ((frame e).toNat + va.toNat % 2^PtLevel.pt.shift) := by
          rw [leafAddr_eq, hfield]
      _ = frame e + BitVec.ofNat 64 (va.toNat % 4096) := by
          rw [BitVec.ofNat_add, BitVec.ofNat_toNat, BitVec.setWidth_eq]
          rfl
  rw [haddr, BitVec.add_assoc, ← BitVec.ofNat_add]
  unfold InPage
  constructor
  · rintro ⟨o, ho, heq⟩
    have heq' := congrArg BitVec.toNat ((BitVec.add_right_inj _).mp heq)
    rw [BitVec.toNat_ofNat, BitVec.toNat_ofNat] at heq'
    omega
  · exact fun h => ⟨_, h, rfl⟩

/-- The pointer into the direct map, `i` bytes on, as a physical address. -/
theorem Machine.va_add_sub (m : Machine) (x y : U64) : m.va x + y - m.pageOffsetBase = x + y := by
  unfold Machine.va
  calc x + m.pageOffsetBase + y - m.pageOffsetBase
      = x + y + m.pageOffsetBase - m.pageOffsetBase := by
        rw [BitVec.add_assoc, BitVec.add_comm m.pageOffsetBase, ← BitVec.add_assoc]
    _ = x + y := BitVec.add_sub_cancel ..

section FourLevel

variable {k : Kernel} (hops : k.ops.Documented) (hl5 : k.cfg.l5Enabled = false) {mm : Mm}
  {va e : U64}

include hops hl5

/-- The walk gets to the last level through tables, and then the entry there is the PT entry of the
translation. -/
theorem Kernel.lastEntry_eq (he : k.lastEntry mm va = some e) :
    (pdptEntry k.machine (k.root mm) va).getLsbD 7 = false ∧
      (pdEntry k.machine (k.root mm) va).getLsbD 7 = false ∧
      ptEntry k.machine (k.root mm) va = e := by
  unfold Kernel.lastEntry at he
  split_ifs at he with hpgd hpud hpudLeaf hpmd hpmdLeaf hpte
  rw [pudLeaf_eq, Kernel.pudEntry_eq hops hl5, Bool.not_eq_true] at hpudLeaf
  rw [pmdLeaf_eq, Kernel.pmdEntry_eq hops hl5 mm va hpudLeaf, Bool.not_eq_true] at hpmdLeaf
  refine ⟨hpudLeaf, hpmdLeaf, ?_⟩
  rw [← Kernel.pteEntry_eq hops hl5 mm va hpudLeaf hpmdLeaf]
  exact Option.some.inj he

/-- If the CPU translates the address at all, it does so through the entry that the walk reads. -/
theorem Kernel.hwWalk_of_lastEntry (he : k.lastEntry mm va = some e) {l : PtLevel} {e' : U64}
    (hw : hwWalk k.machine (k.root mm) va = .leaf l e') :
    hwWalk k.machine (k.root mm) va = .leaf .pt e := by
  obtain ⟨hpdpt, hpd, hpt⟩ := Kernel.lastEntry_eq hops hl5 he
  obtain ⟨⟨rfl, rfl⟩, -⟩ := hwWalk_leaf_of_tables hw hpdpt hpd
  rw [← hpt]
  exact hw

end FourLevel

/-- The walk copies the 16 bytes of the process from `va` on, exactly when it copies nothing or `va`
is canonical, the CPU translates it through the entry, and the page does not end within 16 bytes. -/
theorem tracePageTableWalk_copiesPage_iff (k : Kernel) (pid : CInt) (va : U64)
    (hops : k.ops.Documented) (hl5 : k.cfg.l5Enabled = false) :
    CopiesPage k pid va ↔
      ∀ mm ∈ k.walkMm pid, ∀ e ∈ k.lastEntry mm va, e.getLsbD 0 = true → k.Copies e va →
        Canonical va ∧ hwWalk k.machine (k.root mm) va = .leaf .pt e ∧
          va.toNat % 4096 ≤ 0xFF0 := by
  refine forall₂_congr fun mm hmm => forall₂_congr fun e he => forall_congr' fun hpresent => ?_
  have hram := ram_mem_tracePageTableWalk hmm he hpresent
  constructor
  · intro h hcopies
    obtain ⟨hlen, hbytes⟩ := h _ _ ((hram _ _).mpr ⟨hcopies, rfl, rfl⟩)
    -- the first byte is translated through the entry, and the last one is in its page
    have hfirst := (hbytes 0 (by rw [hlen]; decide)).1
    have hlast := (hbytes 15 (by rw [hlen]; decide)).2
    rw [BitVec.add_zero] at hfirst
    obtain ⟨hva, l, e', hw, -⟩ := hfirst
    rw [Machine.va_add_sub, inPage_leafAddr_iff (by decide)] at hlast
    exact ⟨hva, Kernel.hwWalk_of_lastEntry hops hl5 he hw, by omega⟩
  · intro h kva bytes hmem
    obtain ⟨hcopies, rfl, rfl⟩ := (hram _ _).mp hmem
    obtain ⟨hva, hw, hoff⟩ := h hcopies
    refine ⟨by rw [List.length_map, List.length_range], fun i hi => ?_⟩
    rw [List.length_map, List.length_range] at hi
    -- no byte of the 16 is behind the end of the page
    have hin : va.toNat % 4096 + i < 4096 := by omega
    rw [Machine.va_add_sub, inPage_leafAddr_iff (by omega)]
    refine ⟨?_, hin⟩
    rw [List.getElem_map, List.getElem_range, Machine.loadByte, Machine.va_add_sub]
    exact Kernel.readsByte_add_of_inPage hin hva hw

/-- The theorem at an address in the middle of a page. -/
theorem tracePageTableWalk_copiesPage_page :
    CopiesPage (.ofEntries pageEntries) 7 0x1234 := by
  refine (tracePageTableWalk_copiesPage_iff _ 7 0x1234 PgtableOps.fourLevel_documented rfl).mpr ?_
  intro mm hmm e he _ _
  cases hmm
  cases he
  have hva : ∀ i < 64, 47 ≤ i → (0x1234 : U64).getLsbD i = (0x1234 : U64).getLsbD 47 := by decide
  exact ⟨fun i h h' => hva i h' h, rfl, by decide⟩

/-- Eight bytes before the end of the page, the walk copies eight bytes of the next frame. -/
theorem tracePageTableWalk_not_copiesPage : ¬ CopiesPage (.ofEntries pageEntries) 7 0x1FF8 := by
  intro h
  obtain ⟨hlen, hbytes⟩ := h _ rfl 0x5067 (by decide) (by decide) 0xFFFF888000005FF8
    (List.replicate 16 0) (by decide)
  obtain ⟨o, ho, heq⟩ := (hbytes 15 (by decide)).2
  have heq' : (0x1007 : U64) = BitVec.ofNat 64 o := by
    have hframe : (frame 0x5067 : U64) = 0x5000 := by decide
    rw [hframe] at heq
    have hx : (0xFFFF888000005FF8 : U64) + BitVec.ofNat 64 15 -
        (Kernel.ofEntries pageEntries).machine.pageOffsetBase = 0x5000 + 0x1007 := by decide
    exact (BitVec.add_right_inj _).mp (hx.symm.trans heq)
  have hnat := congrArg BitVec.toNat heq'
  rw [BitVec.toNat_ofNat] at hnat
  have hleft : (0x1007 : U64).toNat = 0x1007 := by decide
  omega

end KernelPortfolio
