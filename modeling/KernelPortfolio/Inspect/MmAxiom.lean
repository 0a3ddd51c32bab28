import KernelPortfolio.Inspect.Kernel

/-!
# The page inspector `malloc_pagefault/mm_exercise_hw.c`

The module answers two ioctls: `verifyPfnAxiom` prints what is known of a page frame, and
`tracePageTableWalk` walks the page tables of a process. `leaves_mmAxiomIoctl` shows that a call
drops what it took on every path, and `mmAxiomIoctl_run` that no run of calls changes any count.
-/

namespace KernelPortfolio

open Ledger (Balanced Leaves)

/-- The lines that the module prints. -/
inductive AxiomLine where
  | verifying (pfn : U64)
  | invalidHole (pfn : U64)
  | pfnToPage (pfn page : U64)
  | pfnPhys (pfn phys : U64)
  | va (phys virt : U64)
  | flags (flags : U64)
  | refcount (n : CInt)
  | mapcount (n : CInt)
  | compound
  | head (order : CInt)
  | tail
  | taskNotFound (pid : CInt)
  | getMm
  | running (task : U64)
  | taskName (comm : String) (pid : CInt)
  | noMm
  | mm (mm : U64)
  | cr3
  | walk (addr : U64)
  | math (pgd pud pmd pte : U64)
  | entry (l : PtLevel) (idx val : U64)
  | terminated (l : PtLevel)
  | huge1G
  | huge2M
  | failedToMap
  | invalidPfn (idx val pfn : U64)
  | phys (pfn offset phys : U64)
  | ramContent (bytes : List (BitVec 8))
  | ramHex (b0 b1 b2 b3 : BitVec 8)
  | notLinear (kva : U64)
  | rule
  deriving DecidableEq, Repr

/-- What `verify_pfn_axiom` reads of a `struct page`. -/
structure Page where
  addr : U64
  flags : U64
  refCount : CInt
  mapcount : CInt
  /-- `PageCompound`. -/
  compound : Bool
  /-- `PageHead`. -/
  head : Bool
  /-- `compound_order`. -/
  order : CInt

/-- `verify_pfn_axiom`; `page` is `pfn_to_page`. -/
def verifyPfnAxiom (k : Kernel) (page : U64 → Page) (pfn : U64) : List (Event AxiomLine) :=
  .say (.verifying pfn) ::
  if !k.pfnValid pfn then [.say (.invalidHole pfn)] else
  let pg := page pfn
  let physAddr := pfn <<< 12
  let virtAddr := k.machine.va physAddr
  [.say (.pfnToPage pfn pg.addr), .say (.pfnPhys pfn physAddr), .say (.va physAddr virtAddr),
    .say (.flags pg.flags), .say (.refcount pg.refCount), .say (.mapcount pg.mapcount)] ++
  if pg.compound then
    [.say .compound, if pg.head then .say (.head pg.order) else .say .tail]
  else []

/-- The end of the walk: the entry `*pte` of the last level. -/
def tracePte (k : Kernel) (va pteIdx pteVal : U64) : List (Event AxiomLine) :=
  let pfn := ptePfn pteVal
  let vaOffset := va &&& ~~~pageMask
  if !k.pfnValid pfn then [.say (.invalidPfn pteIdx pteVal pfn)] else
  let physAddr := (pfn <<< 12) ||| vaOffset
  .say (.entry .pt pteIdx pteVal) :: .say (.phys pfn vaOffset physAddr) ::
  -- the first 16 bytes of what is there
  let kva := k.machine.va physAddr
  if k.virtAddrValid kva then
    let byte := fun i : ℕ => k.machine.loadByte (kva + BitVec.ofNat 64 i)
    [.ram kva ((List.range 16).map byte), .say (.ramContent ((List.range 16).map byte)),
      .say (.ramHex (byte 0) (byte 1) (byte 2) (byte 3))]
  else [.say (.notLinear kva)]

/-- The walk of `trace_page_table_walk`, under the lock; its end is the label `out`. -/
def traceLevels (k : Kernel) (mm : Mm) (va : U64) : List (Event AxiomLine) :=
  let pgdIdx := k.ops.pgdIndex va
  let pudIdx := (va >>> 30) &&& (512 - 1)
  let pmdIdx := (va >>> 21) &&& (512 - 1)
  let pteIdx := (va >>> 12) &&& (512 - 1)
  .say (.walk va) :: .say (.math pgdIdx pudIdx pmdIdx pteIdx) ::
  -- LEVEL 1: PGD
  let pgdVal := k.pgdEntry mm va
  .read .pml4 (k.pgdPtr mm va) pgdVal :: .say (.entry .pml4 pgdIdx pgdVal) ::
  if pgdNone k.cfg pgdVal || pgdBad k.cfg pgdVal then [.say (.terminated .pml4)] else
  -- LEVEL 2: PUD
  let pudVal := k.pudEntry mm va
  .read .pdpt (k.pudPtr mm va) pudVal :: .say (.entry .pdpt pudIdx pudVal) ::
  if pudNone pudVal || pudBad pudVal then [.say (.terminated .pdpt)] else
  if pudLeaf pudVal then [.say .huge1G] else
  -- LEVEL 3: PMD
  let pmdVal := k.pmdEntry mm va
  .read .pd (k.pmdPtr mm va) pmdVal :: .say (.entry .pd pmdIdx pmdVal) ::
  if pmdNone pmdVal || pmdBad pmdVal then [.say (.terminated .pd)] else
  if pmdLeaf pmdVal then [.say .huge2M] else
  -- LEVEL 4: PTE
  if k.ptePtr mm va = 0 then [.say .failedToMap] else
  let pteVal := k.pteEntry mm va
  .read .pt (k.ptePtr mm va) pteVal :: tracePte k va pteIdx pteVal

/-- The task that `trace_page_table_walk` selects, with a reference to it. -/
def Kernel.walkTask (k : Kernel) (pid : CInt) : Option Task :=
  if pid = k.current.pid then some k.current else (k.findVpid pid).bind Pid.task

/-- `trace_page_table_walk`. -/
def tracePageTableWalk (k : Kernel) (pid : CInt) (va : U64) : List (Event AxiomLine) :=
  match k.walkTask pid with
  | none => [.say (.taskNotFound pid)]
  | some task =>
    .ref (.take (.task task.addr)) ::
    .say .getMm :: .say (.running task.addr) :: .say (.taskName task.comm task.pid) ::
    match task.mm with
    | none => [.say .noMm, .ref (.drop (.task task.addr))]
    | some mm =>
      .ref (.take (.mmUsers mm.addr)) :: .say (.mm mm.addr) :: .say .cr3 ::
      .ref (.take (.mmapLock mm.addr)) ::
      (traceLevels k mm va ++
        [.say .rule, .ref (.drop (.mmapLock mm.addr)), .ref (.drop (.mmUsers mm.addr)),
          .ref (.drop (.task task.addr))])

/-- `struct axiom_walk_args`. -/
structure AxiomWalkArgs where
  pid : CInt
  va : U64

/-- A call of the module's ioctl. -/
structure IoctlCall where
  kernel : Kernel
  /-- `pfn_to_page`. -/
  page : U64 → Page
  /-- `get_user` of an `unsigned long`, which fails at a bad address. -/
  getUser : U64 → Option U64
  /-- `copy_from_user` of the arguments, which fails at a bad address. -/
  copyFromUser : U64 → Option AxiomWalkArgs
  /-- `MM_AXIOM_IOC_VERIFY_PFN`. -/
  verifyPfn : CInt
  /-- `MM_AXIOM_IOC_WALK_VA`. -/
  walkVa : CInt
  cmd : CInt
  arg : U64

/-- `mm_axiom_ioctl`: what it does, and what it returns. -/
def mmAxiomIoctl (c : IoctlCall) : List (Event AxiomLine) × ℤ :=
  if c.cmd = c.verifyPfn then
    match c.getUser c.arg with
    | none => ([], efault)
    | some pfn => (verifyPfnAxiom c.kernel c.page pfn, 0)
  else if c.cmd = c.walkVa then
    match c.copyFromUser c.arg with
    | none => ([], efault)
    | some args => (tracePageTableWalk c.kernel args.pid args.va, 0)
  else ([], einval)

/-! ## What a call takes, it drops -/

/-- The check of a page frame takes nothing. -/
theorem refs_verifyPfnAxiom (k : Kernel) (page : U64 → Page) (pfn : U64) :
    refs (verifyPfnAxiom k page pfn) = [] := by
  simp only [verifyPfnAxiom, refs_say]
  split_ifs <;> rfl

/-- The end of the walk takes nothing. -/
theorem refs_tracePte (k : Kernel) (va pteIdx pteVal : U64) :
    refs (tracePte k va pteIdx pteVal) = [] := by
  simp only [tracePte]
  split_ifs <;> rfl

/-- Under the lock, the walk takes nothing, wherever it ends. -/
theorem refs_traceLevels (k : Kernel) (mm : Mm) (va : U64) : refs (traceLevels k mm va) = [] := by
  simp only [traceLevels, refs_say, refs_read]
  split_ifs <;> simp only [refs_say, refs_read, refs_nil, refs_tracePte]

/-- A walk drops what it took: the lock, then the mm, then the task. -/
theorem leaves_tracePageTableWalk (k : Kernel) (pid : CInt) (va : U64) :
    Leaves (refs (tracePageTableWalk k pid va)) 0 := by
  unfold tracePageTableWalk
  cases k.walkTask pid with
  | none => exact Ledger.leaves_nil
  | some task =>
    obtain ⟨addr, comm, tpid, mm⟩ := task
    cases mm with
    | none => exact Ledger.leaves_nil.bracket (Resource.task addr)
    | some mm =>
      simp only [refs_ref, refs_say, refs_append, refs_traceLevels, refs_nil, List.nil_append]
      have hlock := Ledger.leaves_nil.bracket (Resource.mmapLock mm.addr)
      exact (hlock.bracket (.mmUsers mm.addr)).bracket (.task addr)

/-- A call drops what it took. -/
theorem leaves_mmAxiomIoctl (c : IoctlCall) : Leaves (refs (mmAxiomIoctl c).1) 0 := by
  unfold mmAxiomIoctl
  split_ifs
  · cases c.getUser c.arg with
    | none => exact Ledger.leaves_nil
    | some pfn =>
      simp only [refs_verifyPfnAxiom]
      exact Ledger.leaves_nil
  · cases c.copyFromUser c.arg with
    | none => exact Ledger.leaves_nil
    | some args => exact leaves_tracePageTableWalk c.kernel args.pid args.va
  · exact Ledger.leaves_nil

/-- In every run of calls, whatever each of them sees, every call drops exactly what it took, and
after every call the counts of all tasks and mms, and all locks, are what they were before. -/
theorem mmAxiomIoctl_run (calls : List IoctlCall) (counts : Resource → ℕ) :
    (∀ c ∈ calls, Balanced (refs (mmAxiomIoctl c).1)) ∧
    ∀ n, Ledger.run ((calls.take n).flatMap fun c => refs (mmAxiomIoctl c).1) counts =
      some counts := by
  have hcall : ∀ c, Balanced (refs (mmAxiomIoctl c).1) := fun c =>
    Ledger.leaves_zero_iff.mp (leaves_mmAxiomIoctl c)
  exact ⟨fun c _ => hcall c, fun n => (Balanced.flatMap fun c _ => hcall c).run_eq counts⟩

end KernelPortfolio
