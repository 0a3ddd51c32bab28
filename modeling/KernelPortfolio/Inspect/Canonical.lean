import KernelPortfolio.Inspect.AxiomWalk
import KernelPortfolio.Inspect.PhysProof
import KernelPortfolio.Paging.WalkVa

/-!
# The inspectors and addresses that are not canonical

The CPU faults on an address whose bits 63 to 47 are not all equal, before any walk. None of the
three inspectors that take an address has such a test, and their indices are taken from the bits 47
to 12. `inspectors_report_congr` says what they do instead: they report every address as they report
the canonical address with the same low 48 bits.
-/

namespace KernelPortfolio

open BitField (field)

/-- The bits 63 to 47 of the address are all equal. -/
def Canonical (va : U64) : Prop := ∀ i, 47 ≤ i → i < 64 → va.getLsbD i = va.getLsbD 47

/-- The two addresses agree on the bits 47 to 0. -/
def SameLow (va va' : U64) : Prop := ∀ i < 48, va'.getLsbD i = va.getLsbD i

/-- The offset in a page is part of the low bits. -/
theorem SameLow.pageOffset {va va' : U64} (h : SameLow va va') :
    va' &&& ~~~pageMask = va &&& ~~~pageMask := by
  have hmask : (~~~pageMask : U64) = field 64 0 12 := by decide
  apply BitVec.eq_of_getLsbD_eq
  intro i _
  rw [hmask, BitField.getLsbD_and_field, BitField.getLsbD_and_field]
  by_cases hi : i < 12
  · rw [h i (by omega)]
  · simp [hi]

/-- The index of a level is part of the low bits. -/
theorem SameLow.index {va va' : U64} (h : SameLow va va') (l : PtLevel) :
    (va' >>> l.shift) &&& 511 = (va >>> l.shift) &&& 511 :=
  index_congr l (Nat.zero_le _) fun i _ hi => h i hi

section FourLevel

variable {k : Kernel} (hops : k.ops.Documented) (hl5 : k.cfg.l5Enabled = false) (mm : Mm)
  {va va' : U64} (h : SameLow va va')

include hops h

/-- The pointer to the PGD entry. -/
theorem Kernel.pgdPtr_congr : k.pgdPtr mm va' = k.pgdPtr mm va := by
  have hidx : (va' >>> (39 : ℕ)) &&& 511 = (va >>> (39 : ℕ)) &&& 511 := h.index .pml4
  unfold Kernel.pgdPtr
  rw [hops.pgdOffset, hops.pgdOffset, hidx]

include hl5

/-- The pointer to the P4D entry. -/
theorem Kernel.p4dPtr_congr : k.p4dPtr mm va' = k.p4dPtr mm va := by
  simp only [Kernel.p4dPtr, p4dOffset, hl5, Bool.not_false, if_true, Kernel.pgdPtr_congr hops mm h]

/-- The pointer to the PUD entry. -/
theorem Kernel.pudPtr_congr : k.pudPtr mm va' = k.pudPtr mm va := by
  have hidx : (va' >>> (30 : ℕ)) &&& 511 = (va >>> (30 : ℕ)) &&& 511 := h.index .pdpt
  unfold Kernel.pudPtr
  rw [hops.pudOffset, hops.pudOffset, Kernel.p4dPtr_congr hops hl5 mm h, hidx]

/-- The pointer to the PMD entry. -/
theorem Kernel.pmdPtr_congr : k.pmdPtr mm va' = k.pmdPtr mm va := by
  have hidx : (va' >>> (21 : ℕ)) &&& 511 = (va >>> (21 : ℕ)) &&& 511 := h.index .pd
  unfold Kernel.pmdPtr
  rw [hops.pmdOffset, hops.pmdOffset, Kernel.pudPtr_congr hops hl5 mm h, hidx]

/-- The pointer to the PTE. -/
theorem Kernel.ptePtr_congr : k.ptePtr mm va' = k.ptePtr mm va := by
  have hidx : (va' >>> (12 : ℕ)) &&& 511 = (va >>> (12 : ℕ)) &&& 511 := h.index .pt
  unfold Kernel.ptePtr
  rw [hops.pteOffsetKernel, hops.pteOffsetKernel, Kernel.pmdPtr_congr hops hl5 mm h, hidx]

/-- The entries of the two addresses are the same at every level. -/
theorem Kernel.entries_congr :
    k.pgdEntry mm va' = k.pgdEntry mm va ∧ k.p4dEntry mm va' = k.p4dEntry mm va ∧
      k.pudEntry mm va' = k.pudEntry mm va ∧ k.pmdEntry mm va' = k.pmdEntry mm va ∧
      k.pteEntry mm va' = k.pteEntry mm va := by
  refine ⟨?_, ?_, ?_, ?_, ?_⟩ <;> apply congrArg k.machine.load
  · exact Kernel.pgdPtr_congr hops mm h
  · exact Kernel.p4dPtr_congr hops hl5 mm h
  · exact Kernel.pudPtr_congr hops hl5 mm h
  · exact Kernel.pmdPtr_congr hops hl5 mm h
  · exact Kernel.ptePtr_congr hops hl5 mm h

/-- The two walks under the lock end at the same entry of the last level. -/
theorem Kernel.lastEntry_congr : k.lastEntry mm va' = k.lastEntry mm va := by
  obtain ⟨hpgd, -, hpud, hpmd, hpte⟩ := Kernel.entries_congr hops hl5 mm h
  unfold Kernel.lastEntry
  rw [hpgd, hpud, hpmd, hpte, Kernel.ptePtr_congr hops hl5 mm h]

/-- The two walks under the lock read the same entries. -/
theorem reads_traceLevels_congr : reads (traceLevels k mm va') = reads (traceLevels k mm va) := by
  obtain ⟨hpgd, -, hpud, hpmd, -⟩ := Kernel.entries_congr hops hl5 mm h
  rw [reads_traceLevels, reads_traceLevels, hpgd, hpud, hpmd, Kernel.lastEntry_congr hops hl5 mm h]

/-- The two walks under the lock show the same of the page. -/
theorem shown_traceLevels_congr : shown (traceLevels k mm va') = shown (traceLevels k mm va) := by
  rw [shown_traceLevels, shown_traceLevels, Kernel.lastEntry_congr hops hl5 mm h]
  simp only [shown_tracePte, h.pageOffset]

/-- The two proofs under the lock have the same result. -/
theorem result_proofLevels_congr (pid : CInt) (phys : U64) :
    .say (.result pid va' phys) ∈ proofLevels k pid mm va' ↔
      .say (.result pid va phys) ∈ proofLevels k pid mm va := by
  obtain ⟨hpgd, hp4d, hpud, hpmd, hpte⟩ := Kernel.entries_congr hops hl5 mm h
  rw [result_mem_proofLevels, result_mem_proofLevels, hpgd, hp4d, hpud, hpmd, hpte,
    Kernel.ptePtr_congr hops hl5 mm h]

/-- The two proofs have the same result. -/
theorem result_proofInit_congr (pid : CInt) (phys : U64) :
    .say (.result pid va' phys) ∈ (proofInit k pid va').1 ↔
      .say (.result pid va phys) ∈ (proofInit k pid va).1 := by
  cases hmm : k.findMm pid with
  | none =>
    exact iff_of_false (result_not_mem_proofInit hmm) (result_not_mem_proofInit hmm)
  | some mm =>
    rw [result_mem_proofInit hmm, result_mem_proofInit hmm]
    exact result_proofLevels_congr hops hl5 mm h pid phys

end FourLevel

/-- The three inspectors look at the bits 47 to 0 of an address only, on four levels and whatever
the page tables hold. For two addresses that agree on those bits, canonical or not,
`trace_page_table_walk` reads the same entries and shows the same of the page, `proof_init` prints
the same result or none, and `walk_va` reports the same. -/
theorem inspectors_report_congr (k : Kernel) (pid : CInt) (cr3 : U64) (hops : k.ops.Documented)
    (hl5 : k.cfg.l5Enabled = false) (va va' : U64) (h : SameLow va va') :
    (reads (tracePageTableWalk k pid va') = reads (tracePageTableWalk k pid va) ∧
      shown (tracePageTableWalk k pid va') = shown (tracePageTableWalk k pid va)) ∧
    (∀ phys, .say (.result pid va' phys) ∈ (proofInit k pid va').1 ↔
      .say (.result pid va phys) ∈ (proofInit k pid va).1) ∧
    Report.ofLines (walkVa k.machine cr3 va') = Report.ofLines (walkVa k.machine cr3 va) := by
  refine ⟨⟨?_, ?_⟩, result_proofInit_congr hops hl5 h pid, ?_⟩
  · rw [reads_tracePageTableWalk, reads_tracePageTableWalk]
    cases k.walkMm pid with
    | none => rfl
    | some mm => exact reads_traceLevels_congr hops hl5 mm h
  · rw [shown_tracePageTableWalk, shown_tracePageTableWalk]
    cases k.walkMm pid with
    | none => rfl
    | some mm => exact shown_traceLevels_congr hops hl5 mm h
  · rw [walkVa_report, walkVa_report]
    exact hwReport_congr h k.machine (frame cr3)

/-- The theorem at an address that is not canonical: it is reported like the address in its page. -/
theorem inspectors_report_congr_page :
    Report.ofLines (walkVa (Kernel.ofEntries pageEntries).machine 0x1000000 0x0001000000001234) =
      Report.ofLines (walkVa (Kernel.ofEntries pageEntries).machine 0x1000000 0x1234) :=
  (inspectors_report_congr (.ofEntries pageEntries) 7 0x1000000 PgtableOps.fourLevel_documented rfl
    0x1234 0x0001000000001234 (by unfold SameLow; decide)).2.2

/-- All three inspectors translate an address that is not canonical. -/
theorem inspectors_translate_not_canonical :
    ¬ Canonical 0x0001000000001234 ∧
    .say (.phys 5 0x234 0x5234) ∈
      shown (tracePageTableWalk (.ofEntries pageEntries) 7 0x0001000000001234) ∧
    .say (.result 7 0x0001000000001234 0x5000) ∈
      (proofInit (.ofEntries pageEntries) 7 0x0001000000001234).1 ∧
    Report.ofLines (walkVa (Kernel.ofEntries pageEntries).machine 0x1000000 0x0001000000001234) =
      some (.translated .pt 0x5234) := by
  refine ⟨fun h => ?_, by decide, by decide, by decide⟩
  exact absurd (h 48 (by decide) (by decide)) (by decide)

end KernelPortfolio
