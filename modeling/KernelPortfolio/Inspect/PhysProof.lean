import KernelPortfolio.Inspect.Kernel

/-!
# The translation proof `refcount_exercise/phys_proof.c`

`proofInit` looks a process up by its number and prints the physical address that one of its virtual
addresses has. `proofInit_result` compares what it prints with the translation by the CPU: it
finds the pages of 4KB whose upper entries its guards accept, prints their base, and stops at
larger pages.
-/

namespace KernelPortfolio

/-- The lines that the module prints. -/
inductive ProofLine where
  | init (pid : CInt) (addr : U64)
  | badPgd
  | badP4d
  | badPud
  | badPmd
  | badPte
  | result (pid : CInt) (virt phys : U64)
  deriving DecidableEq, Repr

/-- The walk of `proof_init`, under the lock; its end is the label `out`. -/
def proofLevels (k : Kernel) (targetPid : CInt) (mm : Mm) (targetAddr : U64) :
    List (Event ProofLine) :=
  -- PGD
  let pgdVal := k.pgdEntry mm targetAddr
  .read .pml4 (k.pgdPtr mm targetAddr) pgdVal ::
  if pgdNone k.cfg pgdVal || pgdBad k.cfg pgdVal then [.say .badPgd] else
  -- P4D
  let p4dVal := k.p4dEntry mm targetAddr
  .read .pml4 (k.p4dPtr mm targetAddr) p4dVal ::
  if p4dNone p4dVal || p4dBad k.cfg p4dVal then [.say .badP4d] else
  -- PUD
  let pudVal := k.pudEntry mm targetAddr
  .read .pdpt (k.pudPtr mm targetAddr) pudVal ::
  if pudNone pudVal || pudBad pudVal then [.say .badPud] else
  -- PMD
  let pmdVal := k.pmdEntry mm targetAddr
  .read .pd (k.pmdPtr mm targetAddr) pmdVal ::
  if pmdNone pmdVal || pmdBad pmdVal then [.say .badPmd] else
  -- PTE
  if k.ptePtr mm targetAddr = 0 then [.say .badPte] else
  let pteVal := k.pteEntry mm targetAddr
  let phys := ptePfn pteVal <<< 12
  [.read .pt (k.ptePtr mm targetAddr) pteVal, .say (.result targetPid targetAddr phys)]

/-- `proof_init`: what it does, and what it returns. -/
def proofInit (k : Kernel) (targetPid : CInt) (targetAddr : U64) : List (Event ProofLine) × ℤ :=
  let init := Event.say (.init targetPid targetAddr)
  match k.findVpid targetPid with
  | none => ([init], esrch)
  | some pid =>
    match pid.task with
    | none => ([init, .ref (.take (.pid pid.addr))], esrch)
    | some task =>
      match task.mm with
      | none =>
        ([init, .ref (.take (.pid pid.addr)), .ref (.take (.task task.addr)),
          .ref (.drop (.task task.addr))], einval)
      | some mm =>
        (init :: .ref (.take (.pid pid.addr)) :: .ref (.take (.task task.addr)) ::
          .ref (.take (.mmapLock mm.addr)) ::
          (proofLevels k targetPid mm targetAddr ++
            [.ref (.drop (.mmapLock mm.addr)), .ref (.drop (.task task.addr)),
              .ref (.drop (.pid pid.addr))]), 0)

/-! ## The result is a translation -/

/-- The address space that the walk looks at, if it gets that far. -/
def Kernel.findMm (k : Kernel) (pid : CInt) : Option Mm :=
  ((k.findVpid pid).bind Pid.task).bind Task.mm

/-- Under the lock, the walk prints a result when no guard stops it. -/
theorem result_mem_proofLevels {k : Kernel} {pid : CInt} {mm : Mm} {va phys : U64} :
    .say (.result pid va phys) ∈ proofLevels k pid mm va ↔
      (pgdNone k.cfg (k.pgdEntry mm va) || pgdBad k.cfg (k.pgdEntry mm va)) = false ∧
      (p4dNone (k.p4dEntry mm va) || p4dBad k.cfg (k.p4dEntry mm va)) = false ∧
      (pudNone (k.pudEntry mm va) || pudBad (k.pudEntry mm va)) = false ∧
      (pmdNone (k.pmdEntry mm va) || pmdBad (k.pmdEntry mm va)) = false ∧
      k.ptePtr mm va ≠ 0 ∧ phys = ptePfn (k.pteEntry mm va) <<< 12 := by
  simp only [proofLevels]
  split_ifs with _ _ _ _ hpte <;> simp [*]
  exact fun _ => hpte

/-- The walk prints the result that it prints under the lock. -/
theorem result_mem_proofInit {k : Kernel} {pid : CInt} {va phys : U64} {mm : Mm}
    (hmm : k.findMm pid = some mm) :
    .say (.result pid va phys) ∈ (proofInit k pid va).1 ↔
      .say (.result pid va phys) ∈ proofLevels k pid mm va := by
  unfold Kernel.findMm at hmm
  unfold proofInit
  cases hpid : k.findVpid pid with
  | none => simp [hpid] at hmm
  | some p =>
    obtain ⟨paddr, task⟩ := p
    cases task with
    | none => simp [hpid] at hmm
    | some task =>
      obtain ⟨addr, comm, tpid, mm'⟩ := task
      simp only [hpid, Option.bind_some] at hmm
      subst hmm
      simp

/-- The guards of the walk accept the tables on the path of an address. -/
def TablesAccepted (k : Kernel) (mm : Mm) (va : U64) : Prop :=
  p4dBad k.cfg (pml4Entry k.machine (k.root mm) va) = false ∧
    pudBad (pdptEntry k.machine (k.root mm) va) = false ∧
    pmdBad (pdEntry k.machine (k.root mm) va) = false

section FourLevel

variable {k : Kernel} (hops : k.ops.Documented) (hl5 : k.cfg.l5Enabled = false) {mm : Mm} {va : U64}

include hops hl5

/-- On four levels, the guards of the walk judge the entries of the translation. -/
theorem result_mem_proofLevels_iff {pid : CInt} {phys : U64}
    (h : (pdptEntry k.machine (k.root mm) va).getLsbD 7 = false)
    (h' : (pdEntry k.machine (k.root mm) va).getLsbD 7 = false) :
    .say (.result pid va phys) ∈ proofLevels k pid mm va ↔
      p4dNone (pml4Entry k.machine (k.root mm) va) = false ∧
      pudNone (pdptEntry k.machine (k.root mm) va) = false ∧
      pmdNone (pdEntry k.machine (k.root mm) va) = false ∧ TablesAccepted k mm va ∧
      k.ptePtr mm va ≠ 0 ∧ phys = ptePfn (ptEntry k.machine (k.root mm) va) <<< 12 := by
  rw [result_mem_proofLevels, pgd_guard_eq_false hl5, Kernel.p4dEntry_eq hops hl5,
    Kernel.pudEntry_eq hops hl5, Kernel.pmdEntry_eq hops hl5 mm va h,
    Kernel.pteEntry_eq hops hl5 mm va h h', TablesAccepted]
  simp only [Bool.or_eq_false_iff, true_and]
  tauto

/-- A result is printed through tables only: the PDPT entry and the PD entry are no leaves, and
neither they nor the PML4 entry are empty. -/
theorem tables_of_result {pid : CInt} {phys : U64}
    (hr : .say (.result pid va phys) ∈ proofLevels k pid mm va) :
    (pdptEntry k.machine (k.root mm) va).getLsbD 7 = false ∧
      (pdEntry k.machine (k.root mm) va).getLsbD 7 = false := by
  rw [result_mem_proofLevels] at hr
  obtain ⟨-, -, hpud, hpmd, -⟩ := hr
  rw [Kernel.pudEntry_eq hops hl5, Bool.or_eq_false_iff] at hpud
  have h := not_leaf_of_pudBad hpud.2
  rw [Kernel.pmdEntry_eq hops hl5 mm va h, Bool.or_eq_false_iff] at hpmd
  exact ⟨h, (table_of_pmdBad hpmd.2).2⟩

end FourLevel

/-- The walk prints no result without an address space to walk. -/
theorem result_not_mem_proofInit {k : Kernel} {pid : CInt} {va phys : U64}
    (hmm : k.findMm pid = none) : .say (.result pid va phys) ∉ (proofInit k pid va).1 := by
  unfold Kernel.findMm at hmm
  unfold proofInit
  cases hpid : k.findVpid pid with
  | none => simp
  | some p =>
    obtain ⟨paddr, task⟩ := p
    cases task with
    | none => simp
    | some task =>
      obtain ⟨addr, comm, tpid, mm'⟩ := task
      simp only [hpid, Option.bind_some] at hmm
      subst hmm
      simp

/-- The result for a present entry of the last level is its frame. -/
theorem ptePfn_shift_iff {e phys : U64} (h : e.getLsbD 0 = true) (va : U64) :
    phys = ptePfn e <<< 12 ↔ phys.toNat + va.toNat % 2^12 = leafAddr .pt e va := by
  have hne : e ≠ 0 := by
    rintro rfl
    exact absurd h (by decide)
  rw [ptePfn_shift, if_neg hne, mappedFrame, if_pos h, leafAddr_eq, ← BitVec.toNat_inj]
  exact Nat.add_right_cancel_iff.symm

/-- The guards of the walk stop at an entry that is not present: if it is none or bad, and always at
the PD level, where every such entry is bad. -/
def StoppedAt (cfg : Config) : PtLevel → U64 → Prop
  | .pml4, e => p4dNone e = true ∨ p4dBad cfg e = true
  | .pdpt, e => pudNone e = true ∨ pudBad e = true
  | .pd, _ => True
  | .pt, _ => False

/-- On four levels, and whatever the page tables hold: when the CPU translates the target address
through a leaf, the module prints a result exactly if the leaf is a page of 4KB, the guards accept
the tables above it, and the pointer to its entry is not NULL, and the result is the physical
address with the low 12 bits cleared. When a table of the path is missing and a guard stops there,
or the process has no address space, no result is printed. -/
theorem proofInit_result (k : Kernel) (pid : CInt) (va : U64) (hops : k.ops.Documented)
    (hl5 : k.cfg.l5Enabled = false) :
    (∀ mm ∈ k.findMm pid,
      (∀ l e, hwWalk k.machine (k.root mm) va = .leaf l e → ∀ phys,
        (.say (.result pid va phys) ∈ (proofInit k pid va).1 ↔
          l = .pt ∧ TablesAccepted k mm va ∧ k.ptePtr mm va ≠ 0 ∧
            phys.toNat + va.toNat % 2^12 = leafAddr .pt e va)) ∧
      ∀ l e, hwWalk k.machine (k.root mm) va = .absent l e → StoppedAt k.cfg l e → ∀ phys,
        .say (.result pid va phys) ∉ (proofInit k pid va).1) ∧
    (k.findMm pid = none → ∀ phys, .say (.result pid va phys) ∉ (proofInit k pid va).1) := by
  refine ⟨fun mm hmm => ⟨fun l e hw phys => ?_, fun l e hw hstop phys hr => ?_⟩, fun hmm phys =>
    result_not_mem_proofInit hmm⟩
  · rw [result_mem_proofInit hmm]
    by_cases ht : (pdptEntry k.machine (k.root mm) va).getLsbD 7 = false ∧
        (pdEntry k.machine (k.root mm) va).getLsbD 7 = false
    · obtain ⟨⟨rfl, rfl⟩, h4, h3, h2, h1⟩ := hwWalk_leaf_of_tables hw ht.1 ht.2
      rw [result_mem_proofLevels_iff hops hl5 ht.1 ht.2, ptePfn_shift_iff h1 va]
      have hp4d : p4dNone _ = false := none_eq_false_of_present h4
      have hpud : pudNone _ = false := none_eq_false_of_present h3
      have hpmd : pmdNone _ = false := none_eq_false_of_present h2
      simp only [hp4d, hpud, hpmd, true_and]
    · -- a larger page: its entry is bad
      constructor
      · exact fun hr => absurd (tables_of_result hops hl5 hr) ht
      · rintro ⟨-, ⟨-, hpud, hpmd⟩, -⟩
        exact absurd ⟨not_leaf_of_pudBad hpud, (table_of_pmdBad hpmd).2⟩ ht
  · rw [result_mem_proofInit hmm] at hr
    obtain ⟨h, h'⟩ := tables_of_result hops hl5 hr
    rw [result_mem_proofLevels_iff hops hl5 h h'] at hr
    obtain ⟨hp4d, hpud, hpmd, ⟨hp4d', hpud', hpmd'⟩, -⟩ := hr
    obtain ⟨rfl, h0⟩ := hwWalk_absent_entry hw
    cases l with
    | pml4 => simp [StoppedAt, pathEntry, hp4d, hp4d'] at hstop
    | pdpt => simp [StoppedAt, pathEntry, hpud, hpud'] at hstop
    | pd =>
      have hpresent := (table_of_pmdBad hpmd').1
      unfold pathEntry at h0
      rw [hpresent] at h0
      exact absurd h0 (by decide)
    | pt => exact hstop

/-- The theorem at a page of 4KB: the result is its base. -/
theorem proofInit_result_page :
    .say (.result 7 0x1234 0x5000) ∈ (proofInit (.ofEntries pageEntries) 7 0x1234).1 := by
  refine (((proofInit_result _ 7 0x1234 PgtableOps.fourLevel_documented rfl).1 _ rfl).1 .pt 0x5067
    ?_ 0x5000).mpr ⟨rfl, ?_, by decide, by decide⟩
  · rfl
  · exact ⟨by decide, by decide, by decide⟩

/-- The results that the module prints are the translations of the target address by the CPU. -/
def ResultIsTranslation (k : Kernel) (pid : CInt) (va : U64) : Prop :=
  ∀ mm ∈ k.findMm pid, ∀ phys, .say (.result pid va phys) ∈ (proofInit k pid va).1 ↔
    ∃ l e, hwWalk k.machine (k.root mm) va = .leaf l e ∧ phys.toNat = leafAddr l e va

/-- They are not. For an address in a page of 2MB, and for one in a page of 4KB below a PD entry
with the cache-disable bit, which `pmd_bad` rejects, none is printed, and for an address inside a
page of 4KB the base of the page is printed. -/
theorem proofInit_result_not_translation :
    ¬ ResultIsTranslation (.ofEntries largeEntries) 7 0x1234 ∧
      ¬ ResultIsTranslation (.ofEntries uncachedEntries) 7 0x1000 ∧
      ¬ ResultIsTranslation (.ofEntries pageEntries) 7 0x1234 := by
  refine ⟨?_, ?_, ?_⟩
  · intro h
    have hmem := (h _ rfl 0x801234).mpr ⟨.pd, 0x8000E7, rfl, by decide⟩
    exact absurd hmem (by decide)
  · intro h
    have hmem := (h _ rfl 0x5000).mpr ⟨.pt, 0x5067, rfl, by decide⟩
    exact absurd hmem (by decide)
  · intro h
    have hmem := (h _ rfl 0x5234).mpr ⟨.pt, 0x5067, rfl, by decide⟩
    exact absurd hmem (by decide)

end KernelPortfolio
