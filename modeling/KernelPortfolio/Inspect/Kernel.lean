import KernelPortfolio.Headers.Pgtable
import KernelPortfolio.Lib.Ledger

/-!
# What the inspectors see and do

An inspector is a kernel module that looks at another process: it finds the process by its number,
takes references to what it looks at, and prints. `Kernel` is what it sees during one call, which
nothing is assumed about, and a list of `Event`s is what it does: the references and locks that it
takes and drops, the page-table entries and the memory that it reads, and the lines that it prints.
-/

namespace KernelPortfolio

/-- `struct vm_area_struct`. -/
structure Vma where
  vmStart : U64
  vmEnd : U64
  vmFlags : U64
  deriving DecidableEq, Repr

/-- `struct mm_struct`: its address, its top-level table, and its VMAs in the order of the Maple
Tree. -/
structure Mm where
  addr : U64
  pgd : U64
  vmas : List Vma
  deriving DecidableEq, Repr

/-- `struct task_struct`; a kernel thread has no mm. -/
structure Task where
  addr : U64
  comm : String
  pid : CInt
  mm : Option Mm
  deriving DecidableEq, Repr

/-- `struct pid`, with the task that it still refers to. -/
structure Pid where
  addr : U64
  task : Option Task
  deriving DecidableEq, Repr

/-- What an inspector sees during a call. -/
structure Kernel where
  machine : Machine
  cfg : Config
  ops : PgtableOps
  /-- `pfn_valid`. -/
  pfnValid : U64 → Bool
  /-- `virt_addr_valid`. -/
  virtAddrValid : U64 → Bool
  /-- `current`. -/
  current : Task
  /-- `find_vpid`: the `struct pid` of a number, if there is one. -/
  findVpid : CInt → Option Pid

/-- A process without VMAs, whose top table is at the physical address `0x1000000`. -/
def Task.sample : Task where
  addr := 0xFFFF888002000000
  comm := "a.out"
  pid := 7
  mm := some ⟨0xFFFF888003000000, 0xFFFF888001000000, []⟩

/-- A kernel on four levels with that process alone. The memory holds the listed words, and every
frame is valid. -/
def Kernel.ofEntries (entries : List (U64 × U64)) : Kernel where
  machine := .ofEntries entries
  cfg := ⟨false, true⟩
  ops := .fourLevel
  pfnValid _ := true
  virtAddrValid _ := true
  current := .sample
  findVpid n := if n = 7 then some ⟨0xFFFF888004000000, some .sample⟩ else none

/-- Tables under which that process has a page of 4KB at `0x1000`, with the base `0x5000`. -/
def pageEntries : List (U64 × U64) :=
  [(0x1000000, 0x2067), (0x2000, 0x3067), (0x3000, 0x4067), (0x4008, 0x5067)]

/-- Tables under which that process has a page of 2MB at `0`, with the base `0x800000`. -/
def largeEntries : List (U64 × U64) :=
  [(0x1000000, 0x2067), (0x2000, 0x3067), (0x3000, 0x8000E7)]

/-- The tables of `pageEntries` below a PD entry with the cache-disable bit. -/
def uncachedEntries : List (U64 × U64) :=
  [(0x1000000, 0x2067), (0x2000, 0x3067), (0x3000, 0x4077), (0x4008, 0x5067)]

/-! ## The entries of an address

The inspectors derive the pointers to the entries of an address level by level, each from the one
above, whatever that entry holds. -/

/-- `pgd = pgd_offset(mm, va)`. -/
def Kernel.pgdPtr (k : Kernel) (mm : Mm) (va : U64) : U64 := k.ops.pgdOffset mm.pgd va

/-- `p4d = p4d_offset(pgd, va)`. -/
def Kernel.p4dPtr (k : Kernel) (mm : Mm) (va : U64) : U64 :=
  p4dOffset k.cfg k.machine (k.pgdPtr mm va) va

/-- `pud = pud_offset(p4d, va)`. -/
def Kernel.pudPtr (k : Kernel) (mm : Mm) (va : U64) : U64 :=
  k.ops.pudOffset k.machine (k.p4dPtr mm va) va

/-- `pmd = pmd_offset(pud, va)`. -/
def Kernel.pmdPtr (k : Kernel) (mm : Mm) (va : U64) : U64 :=
  k.ops.pmdOffset k.machine (k.pudPtr mm va) va

/-- `pte = pte_offset_kernel(pmd, va)`. -/
def Kernel.ptePtr (k : Kernel) (mm : Mm) (va : U64) : U64 :=
  k.ops.pteOffsetKernel k.machine (k.pmdPtr mm va) va

/-- `*pgd`, which on four levels is the PML4 entry of the address. -/
def Kernel.pgdEntry (k : Kernel) (mm : Mm) (va : U64) : U64 := k.machine.load (k.pgdPtr mm va)

/-- `*p4d`. -/
def Kernel.p4dEntry (k : Kernel) (mm : Mm) (va : U64) : U64 := k.machine.load (k.p4dPtr mm va)

/-- `*pud`. -/
def Kernel.pudEntry (k : Kernel) (mm : Mm) (va : U64) : U64 := k.machine.load (k.pudPtr mm va)

/-- `*pmd`. -/
def Kernel.pmdEntry (k : Kernel) (mm : Mm) (va : U64) : U64 := k.machine.load (k.pmdPtr mm va)

/-- `*pte`. -/
def Kernel.pteEntry (k : Kernel) (mm : Mm) (va : U64) : U64 := k.machine.load (k.ptePtr mm va)

/-- `__pa(mm->pgd)`, the root that the CPU translates the addresses of the mm from. -/
def Kernel.root (k : Kernel) (mm : Mm) : U64 := mm.pgd - k.machine.pageOffsetBase

/-- A word behind a pointer into a table. -/
theorem Machine.load_va_add (m : Machine) (x i : U64) :
    m.load (m.va x + 8 * i) = m.phys (x + 8 * i) :=
  m.index_va x i

section FourLevel

variable {k : Kernel} (hops : k.ops.Documented) (hl5 : k.cfg.l5Enabled = false) (mm : Mm) (va : U64)

include hops

/-- The PGD entry is the PML4 entry of the translation. -/
theorem Kernel.pgdEntry_eq : k.pgdEntry mm va = pml4Entry k.machine (k.root mm) va := by
  have hbase : mm.pgd = k.machine.va (k.root mm) := (BitVec.sub_add_cancel _ _).symm
  unfold Kernel.pgdEntry Kernel.pgdPtr
  rw [hops.pgdOffset, hbase, Machine.load_va_add]
  rfl

include hl5

/-- The P4D entry is the PGD entry. -/
theorem Kernel.p4dEntry_eq : k.p4dEntry mm va = pml4Entry k.machine (k.root mm) va := by
  have hptr : k.p4dPtr mm va = k.pgdPtr mm va := by simp [Kernel.p4dPtr, p4dOffset, hl5]
  rw [← Kernel.pgdEntry_eq hops, Kernel.p4dEntry, hptr]
  rfl

/-- The PUD entry is the PDPT entry of the translation. -/
theorem Kernel.pudEntry_eq : k.pudEntry mm va = pdptEntry k.machine (k.root mm) va := by
  have hp4d : k.machine.load (k.p4dPtr mm va) = pml4Entry k.machine (k.root mm) va :=
    Kernel.p4dEntry_eq hops hl5 mm va
  unfold Kernel.pudEntry Kernel.pudPtr
  rw [hops.pudOffset, hp4d, p4dPgtable_eq, Machine.load_va_add]
  rfl

/-- Below a PDPT entry that is no leaf, the PMD entry is the PD entry of the translation. -/
theorem Kernel.pmdEntry_eq (h : (pdptEntry k.machine (k.root mm) va).getLsbD 7 = false) :
    k.pmdEntry mm va = pdEntry k.machine (k.root mm) va := by
  have hpud : k.machine.load (k.pudPtr mm va) = pdptEntry k.machine (k.root mm) va :=
    Kernel.pudEntry_eq hops hl5 mm va
  unfold Kernel.pmdEntry Kernel.pmdPtr
  rw [hops.pmdOffset, hpud, pudPgtable_eq _ h, Machine.load_va_add]
  rfl

/-- Below a PD entry that is no leaf, the pointer to the PTE points into the table that it names. -/
theorem Kernel.ptePtr_eq (h : (pdptEntry k.machine (k.root mm) va).getLsbD 7 = false)
    (h' : (pdEntry k.machine (k.root mm) va).getLsbD 7 = false) :
    k.ptePtr mm va =
      k.machine.va (frame (pdEntry k.machine (k.root mm) va)) +
        8 * ((va >>> (12 : ℕ)) &&& 511) := by
  have hpmd : k.machine.load (k.pmdPtr mm va) = pdEntry k.machine (k.root mm) va :=
    Kernel.pmdEntry_eq hops hl5 mm va h
  unfold Kernel.ptePtr
  rw [hops.pteOffsetKernel, hpmd, pmdPageVaddr_eq _ h']

/-- Below a PD entry that is no leaf, the PTE is the PT entry of the translation. -/
theorem Kernel.pteEntry_eq (h : (pdptEntry k.machine (k.root mm) va).getLsbD 7 = false)
    (h' : (pdEntry k.machine (k.root mm) va).getLsbD 7 = false) :
    k.pteEntry mm va = ptEntry k.machine (k.root mm) va := by
  unfold Kernel.pteEntry
  rw [Kernel.ptePtr_eq hops hl5 mm va h h', Machine.load_va_add]
  rfl

end FourLevel

/-! ## Events -/

/-- What an inspector holds while it looks: a reference to a `struct pid`, to a task, or to an
`mm_users` count, a read lock of an mm, or an RCU read section. -/
inductive Resource where
  | pid (addr : U64)
  | task (addr : U64)
  | mmUsers (addr : U64)
  | mmapLock (addr : U64)
  | rcu
  deriving DecidableEq, Repr

/-- What an inspector does; it prints lines of the type `α`. -/
inductive Event (α : Type) where
  /-- It takes or drops a resource. -/
  | ref (op : Ledger.Op Resource)
  /-- It reads the page-table entry `e` behind the pointer `ptr`. -/
  | read (l : PtLevel) (ptr e : U64)
  /-- It copies the bytes behind the pointer `kva`. -/
  | ram (kva : U64) (bytes : List (BitVec 8))
  /-- It prints a line. -/
  | say (line : α)
  deriving DecidableEq, Repr

variable {α : Type}

/-- The operation on a resource that an event is. -/
def Event.ref? : Event α → Option (Ledger.Op Resource)
  | ref op => some op
  | _ => none

/-- The page-table entry that an event reads. -/
def Event.read? : Event α → Option (PtLevel × U64)
  | read l _ e => some (l, e)
  | _ => none

/-- The operations of a list of events on resources. -/
def refs (t : List (Event α)) : List (Ledger.Op Resource) := t.filterMap Event.ref?

/-- The page-table entries that a list of events reads, each with its level. -/
def reads (t : List (Event α)) : List (PtLevel × U64) := t.filterMap Event.read?

/-- The operations of two lists of events. -/
theorem refs_append (s t : List (Event α)) : refs (s ++ t) = refs s ++ refs t :=
  List.filterMap_append

/-- The reads of two lists of events. -/
theorem reads_append (s t : List (Event α)) : reads (s ++ t) = reads s ++ reads t :=
  List.filterMap_append

@[simp]
theorem refs_nil : refs ([] : List (Event α)) = [] := rfl

@[simp]
theorem refs_ref (op : Ledger.Op Resource) (t : List (Event α)) :
    refs (.ref op :: t) = op :: refs t := rfl

@[simp]
theorem refs_read (l : PtLevel) (ptr e : U64) (t : List (Event α)) :
    refs (.read l ptr e :: t) = refs t := rfl

@[simp]
theorem refs_ram (kva : U64) (bytes : List (BitVec 8)) (t : List (Event α)) :
    refs (.ram kva bytes :: t) = refs t := rfl

@[simp]
theorem refs_say (line : α) (t : List (Event α)) : refs (.say line :: t) = refs t := rfl

@[simp]
theorem reads_nil : reads ([] : List (Event α)) = [] := rfl

@[simp]
theorem reads_ref (op : Ledger.Op Resource) (t : List (Event α)) :
    reads (.ref op :: t) = reads t := rfl

@[simp]
theorem reads_read (l : PtLevel) (ptr e : U64) (t : List (Event α)) :
    reads (.read l ptr e :: t) = (l, e) :: reads t := rfl

@[simp]
theorem reads_ram (kva : U64) (bytes : List (BitVec 8)) (t : List (Event α)) :
    reads (.ram kva bytes :: t) = reads t := rfl

@[simp]
theorem reads_say (line : α) (t : List (Event α)) : reads (.say line :: t) = reads t := rfl

/-- `-ESRCH`. -/
def esrch : ℤ := -3

/-- `-EFAULT`. -/
def efault : ℤ := -14

/-- `-EINVAL`. -/
def einval : ℤ := -22

end KernelPortfolio
