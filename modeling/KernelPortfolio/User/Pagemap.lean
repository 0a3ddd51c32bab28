import KernelPortfolio.Machine

/-!
# The programs that read `/proc/self/pagemap`

Four programs read the pagemap entry of an address and print what it says of the page:
`malloc_user.c` and `dirty_trace_v2.c` through a function `get_pfn` each, and
`85_page_walk_visualizer.cpp` and `mm_exercise_user.c` on their own. What a program does is a list
of `UserEvent`s. The file is a `Pagemap`, which nothing is assumed about.
-/

namespace KernelPortfolio

/-- What a program does; it prints lines of the type `α`. -/
inductive UserEvent (α : Type) where
  /-- It reads 8 bytes of the pagemap at an offset. -/
  | readAt (offset : U64)
  /-- It has `mm_axiom_hw` walk the page tables for an address. -/
  | walkVa (pid : CInt) (va : U64)
  /-- It prints a line. -/
  | say (line : α)
  deriving DecidableEq, Repr

variable {α : Type}

/-- The offset that an event reads at. -/
def UserEvent.offset? : UserEvent α → Option U64
  | readAt offset => some offset
  | _ => none

/-- The line that an event prints. -/
def UserEvent.line? : UserEvent α → Option α
  | say line => some line
  | _ => none

/-- The offsets that a list of events reads at. -/
def readOffsets (t : List (UserEvent α)) : List U64 := t.filterMap UserEvent.offset?

/-- The lines that a list of events prints. -/
def printed (t : List (UserEvent α)) : List α := t.filterMap UserEvent.line?

@[simp]
theorem readOffsets_append (s t : List (UserEvent α)) :
    readOffsets (s ++ t) = readOffsets s ++ readOffsets t :=
  List.filterMap_append

@[simp]
theorem readOffsets_nil : readOffsets ([] : List (UserEvent α)) = [] := rfl

@[simp]
theorem readOffsets_readAt (o : U64) (t : List (UserEvent α)) :
    readOffsets (.readAt o :: t) = o :: readOffsets t := rfl

@[simp]
theorem readOffsets_walkVa (pid : CInt) (va : U64) (t : List (UserEvent α)) :
    readOffsets (.walkVa pid va :: t) = readOffsets t := rfl

@[simp]
theorem readOffsets_say (line : α) (t : List (UserEvent α)) :
    readOffsets (.say line :: t) = readOffsets t := rfl

@[simp]
theorem printed_append (s t : List (UserEvent α)) : printed (s ++ t) = printed s ++ printed t :=
  List.filterMap_append

@[simp]
theorem printed_nil : printed ([] : List (UserEvent α)) = [] := rfl

@[simp]
theorem printed_readAt (o : U64) (t : List (UserEvent α)) :
    printed (.readAt o :: t) = printed t := rfl

@[simp]
theorem printed_walkVa (pid : CInt) (va : U64) (t : List (UserEvent α)) :
    printed (.walkVa pid va :: t) = printed t := rfl

@[simp]
theorem printed_say (line : α) (t : List (UserEvent α)) :
    printed (.say line :: t) = line :: printed t := rfl

/-- A line is printed exactly if it is among the events. -/
theorem mem_printed {line : α} {t : List (UserEvent α)} : line ∈ printed t ↔ .say line ∈ t := by
  induction t with
  | nil => simp
  | cons ev t ih => cases ev <;> simp [ih]

/-- `/proc/self/pagemap`. -/
structure Pagemap where
  /-- `open` succeeds. -/
  opens : Bool
  /-- `lseek` succeeds. -/
  seeks : Bool
  /-- The 8 bytes at an offset, unless a read returns less. -/
  read : U64 → Option U64

/-- A pagemap with the same entry for every page. -/
def Pagemap.holding (entry : U64) : Pagemap := ⟨true, true, fun _ => some entry⟩

/-! ## `malloc_user.c` -/

namespace MallocUser

/-- The lines that the program prints. -/
inductive Line where
  | perror (s : String)
  | title
  | pid (pid : CInt)
  | sizes
  | rssBefore (pages : U64)
  | malloced (ptr : U64)
  | pfnBefore (pfn : U64)
  | notPresent
  | alreadyPresent
  | rssMalloc (pages change : U64)
  | writing
  | written
  | pfnAfter (pfn : U64)
  | nowPresent
  | physPage (pfn : U64)
  | physBytes (bytes : U64)
  | stillNotPresent
  | rssWrite (pages change : U64)
  | summary (ptr before after : U64)
  | phys (phys : U64)
  | pageType
  | trace (pid : CInt)
  deriving DecidableEq, Repr

/-- `get_pfn`: what it does, and what it returns. -/
def getPfn (pm : Pagemap) (vaddr : U64) : List (UserEvent Line) × U64 :=
  if !pm.opens then ([.say (.perror "open pagemap")], 0) else
  let pageIndex := vaddr >>> 12
  let offset := pageIndex * 8
  if !pm.seeks then ([.say (.perror "lseek pagemap")], 0) else
  match pm.read offset with
  | none => ([.readAt offset, .say (.perror "read pagemap")], 0)
  | some entry =>
    ([.readAt offset], if (entry >>> 63) &&& 1 ≠ 0 then entry &&& 0x7FFFFFFFFFFFFF else 0)

/-- `main`, with the results of `getpid`, of the three calls of `get_rss_pages` and of `malloc`,
which fails with `none`, and with the pagemap before and after the write. -/
def main (pid : CInt) (rss : ℕ → U64) (ptr : Option U64) (before after : Pagemap) :
    List (UserEvent Line) × ℤ :=
  let start := [.say .title, .say (.pid pid), .say .sizes, .say (.rssBefore (rss 0))]
  match ptr with
  | none => (start ++ [.say (.perror "malloc")], 1)
  | some ptr =>
    let found := getPfn before ptr
    let pfnBefore := found.2
    let found' := getPfn after ptr
    let pfnAfter := found'.2
    (start ++ .say (.malloced ptr) :: found.1 ++
      [.say (.pfnBefore pfnBefore),
        if pfnBefore = 0 then .say .notPresent else .say .alreadyPresent,
        .say (.rssMalloc (rss 1) (rss 1 - rss 0)), .say .writing, .say .written] ++
      found'.1 ++ .say (.pfnAfter pfnAfter) ::
      (if pfnAfter ≠ 0 then
        [.say .nowPresent, .say (.physPage pfnAfter), .say (.physBytes (pfnAfter * 4096))]
      else [.say .stillNotPresent]) ++
      [.say (.rssWrite (rss 2) (rss 2 - rss 0)), .say (.summary ptr pfnBefore pfnAfter)] ++
      (if pfnAfter ≠ 0 then [.say (.phys (pfnAfter * 4096))] else []) ++
      [.say .pageType, .say (.trace pid)], 0)

end MallocUser

/-! ## `dirty_trace_v2.c` -/

namespace DirtyTraceV2

/-- The zone that the program derives from a page frame number. -/
inductive Zone where
  | dma
  | dma32
  | normal
  deriving DecidableEq, Repr

/-- The lines that the program prints. -/
inductive Line where
  | perror (s : String)
  | pageNotPresent
  | title
  | dirtyBefore (n : U64)
  | mmapped (vaddr : U64)
  | wrote
  | pfn (pfn : U64)
  | phys (phys : U64)
  | zone (z : Zone)
  | dirtyAfter (n increase : U64)
  | syncing
  | dirtySynced (n : U64)
  | again
  | dirtyAgain (n : U64)
  | structPage (pfn addr : U64)
  | done
  deriving DecidableEq, Repr

/-- `get_pfn`: what it does, and what it returns. -/
def getPfn (pm : Pagemap) (vaddr : U64) : List (UserEvent Line) × U64 :=
  if !pm.opens then ([.say (.perror "open pagemap")], 0) else
  let offset := (vaddr / 4096) * 8
  match pm.read offset with
  | none => ([.readAt offset, .say (.perror "pread pagemap")], 0)
  | some entry =>
    if entry &&& (1 <<< 63) = 0 then ([.readAt offset, .say .pageNotPresent], 0)
    else ([.readAt offset], entry &&& ((1 <<< 55) - 1))

/-- `main`, with the results of the four calls of `get_nr_dirty`, of `open` and of `mmap`, which
fails with `none`. -/
def main (nrDirty : ℕ → U64) (opens : Bool) (map : Option U64) (pm : Pagemap) :
    List (UserEvent Line) × ℤ :=
  let start := [.say .title, .say (.dirtyBefore (nrDirty 0))]
  if !opens then (start ++ [.say (.perror "open")], 1) else
  match map with
  | none => (start ++ [.say (.perror "mmap")], 1)
  | some map =>
    let found := getPfn pm map
    let pfn := found.2
    (start ++ .say (.mmapped map) :: .say .wrote :: found.1 ++
      [.say (.pfn pfn), .say (.phys (pfn * 4096)),
        .say (.zone (if pfn < 4096 then .dma else if pfn < 1048576 then .dma32 else .normal)),
        .say (.dirtyAfter (nrDirty 1) (nrDirty 1 - nrDirty 0)), .say .syncing,
        .say (.dirtySynced (nrDirty 2)), .say .again, .say (.dirtyAgain (nrDirty 3)),
        .say (.structPage pfn (0xFFFFEA0000000000 + pfn * 64)), .say .done], 0)

end DirtyTraceV2

/-! ## `85_page_walk_visualizer.cpp` -/

namespace PageWalkVisualizer

/-- The lines that `show_page_walk` prints. -/
inductive Line where
  /-- The figures of the steps 0 to 4. -/
  | breakdown (vaddr pml4Idx pdptIdx pdIdx ptIdx offset : U64)
  | step5
  | cannotOpen
  | fileOffset (vpn offset : U64)
  | cannotSeek
  | cannotRead
  | entry (e : U64) (present swapped : Bool) (pfn : U64)
  | calculation (pfn phys : U64)
  | physical (offset phys : U64)
  | translation (vaddr phys : U64)
  | tlb (vpn pfn : U64)
  | notPresent
  deriving DecidableEq, Repr

/-- `show_page_walk`. -/
def showPageWalk (pm : Pagemap) (vaddr : U64) : List (UserEvent Line) :=
  let pml4Idx := (vaddr >>> 39) &&& 0x1FF
  let pdptIdx := (vaddr >>> 30) &&& 0x1FF
  let pdIdx := (vaddr >>> 21) &&& 0x1FF
  let ptIdx := (vaddr >>> 12) &&& 0x1FF
  let offset := vaddr &&& 0xFFF
  .say (.breakdown vaddr pml4Idx pdptIdx pdIdx ptIdx offset) :: .say .step5 ::
  if !pm.opens then [.say .cannotOpen] else
  let vpn := vaddr >>> 12
  let pagemapOffset := vpn * 8
  .say (.fileOffset vpn pagemapOffset) ::
  if !pm.seeks then [.say .cannotSeek] else
  .readAt pagemapOffset ::
  match pm.read pagemapOffset with
  | none => [.say .cannotRead]
  | some pagemapEntry =>
    let present := (pagemapEntry >>> 63) &&& 1 != 0
    let swapped := (pagemapEntry >>> 62) &&& 1 != 0
    let pfn := pagemapEntry &&& ((1 <<< 55) - 1)
    .say (.entry pagemapEntry present swapped pfn) ::
    if present && pfn > 0 then
      let physicalAddr := (pfn <<< 12) ||| offset
      [.say (.calculation pfn (pfn <<< 12)), .say (.physical offset physicalAddr),
        .say (.translation vaddr physicalAddr), .say (.tlb (vaddr >>> 12) pfn)]
    else [.say .notPresent]

end PageWalkVisualizer

/-! ## `mm_exercise_user.c` -/

namespace MmExerciseUser

/-- `MY_PFN_MASK`, as its operators bind where it is used. -/
def myPfnMask : U64 := (1 <<< 55) - 1

/-- `MY_PRESENT_MASK`, as its operator binds where it is used. -/
def myPresentMask : U64 := 1 <<< 63

/-- The lines that the program prints. -/
inductive Line where
  | perror (s : String)
  | allocating
  | va (vaddr : U64) (pid : CInt)
  | target (pid : CInt) (addr : U64)
  | faulted
  | locked
  | rawEntry (e : U64)
  | present (set : Bool)
  | pfn (pfn : U64)
  | phys (phys : U64)
  | verifying
  | walked
  | finished (pfn : U64)
  deriving DecidableEq, Repr

/-- `main`, with the results of `getpid`, of `mmap`, which fails with `none`, and of `mlock`.
`dev` is whether the ioctl succeeds, and `none` when the device does not open. -/
def main (pid : CInt) (vaddr : Option U64) (mlock : Bool) (pm : Pagemap) (dev : Option Bool) :
    List (UserEvent Line) × ℤ :=
  match vaddr with
  | none => ([.say .allocating, .say (.perror "mmap failed")], 1)
  | some vaddr =>
    let targetAddr := vaddr + 0x100
    let start :=
      [.say .allocating, .say (.va vaddr pid), .say (.target pid targetAddr), .say .faulted]
    if !mlock then (start ++ [.say (.perror "mlock failed")], 1) else
    let start := start ++ [.say .locked]
    if !pm.opens then (start ++ [.say (.perror "open failed")], 1) else
    let index := vaddr >>> 12
    let offset := index <<< 3
    let start := start ++ [.readAt offset]
    match pm.read offset with
    | none => (start ++ [.say (.perror "pread failed")], 1)
    | some entry =>
      let pfn := entry &&& myPfnMask
      let present := entry &&& myPresentMask != 0
      (start ++ [.say (.rawEntry entry), .say (.present present), .say (.pfn pfn),
        .say (.phys (pfn <<< 12)), .say .verifying] ++
        (match dev with
        | none => [.say (.perror "   [WARN] Cannot open /dev/mm_axiom_hw. Is module loaded?")]
        | some ok =>
          [.walkVa pid targetAddr,
            if ok then .say .walked else .say (.perror "   ioctl failed")]) ++
        [.say (.finished pfn)], 0)

end MmExerciseUser

end KernelPortfolio
