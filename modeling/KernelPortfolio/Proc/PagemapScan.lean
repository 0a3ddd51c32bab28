import KernelPortfolio.Lib.Runs
import KernelPortfolio.Proc.PagemapRead

/-!
# The scan of the pagemap

`PAGEMAP_SCAN` reports the pages of a range that are in certain categories, as regions with a
category each, and on request write-protects the pages that it reports. The regions are collected in
a buffer of at most 512, where a page makes the last region longer if it fits, and go to the caller
when the buffer is full or the walk ends. The scan is over at the end of the range, when the
caller's vector is full, or when it has found as many pages as the caller wants.

The range and the addresses are counted in pages. The walk calls back as it does for `pagemap_read`,
for each VMA that `pagemap_scan_test_walk` does not leave out.
-/

namespace KernelPortfolio

open Runs (Run push runsOf)

namespace PagemapScan

open PagemapRead (flagIf Call AddressSpace)

/-! ## Categories -/

/-- `PAGE_IS_WPALLOWED`. -/
def pageIsWpallowed : U64 := .twoPow 64 0

/-- `PAGE_IS_WRITTEN`. -/
def pageIsWritten : U64 := .twoPow 64 1

/-- `PAGE_IS_FILE`. -/
def pageIsFile : U64 := .twoPow 64 2

/-- `PAGE_IS_PRESENT`. -/
def pageIsPresent : U64 := .twoPow 64 3

/-- `PAGE_IS_SWAPPED`. -/
def pageIsSwapped : U64 := .twoPow 64 4

/-- `PAGE_IS_PFNZERO`. -/
def pageIsPfnzero : U64 := .twoPow 64 5

/-- `PAGE_IS_HUGE`. -/
def pageIsHuge : U64 := .twoPow 64 6

/-- `PAGE_IS_SOFT_DIRTY`. -/
def pageIsSoftDirty : U64 := .twoPow 64 7

/-- `PAGE_IS_GUARD`. -/
def pageIsGuard : U64 := .twoPow 64 8

/-- What the scan knows of the pages and of the VMAs, beside what `pagemap_read` does. -/
structure ScanFacts extends PageFacts where
  /-- `vm_normal_page_pmd`. Its address is for VMAs with `VM_PFNMAP`, which are not walked. -/
  vmNormalPagePmd : (vma : MapsVma) → (pmd : U64) → Option U64
  /-- `is_zero_pfn`. -/
  isZeroPfn : U64 → Bool
  /-- `is_huge_zero_pmd`. -/
  isHugeZeroPmd : U64 → Bool
  /-- `userfaultfd_wp_async(vma) && userfaultfd_wp_use_markers(vma)`. -/
  wpAllowed : MapsVma → Bool
  /-- The entries that `split_huge_pmd` makes of one of a huge page, by the page. -/
  splitHugePmd : U64 → ℕ → U64
  /-- `uffd_wp_range` succeeds. -/
  uffdWpRange : (lo hi : ℕ) → Bool

/-- `struct pm_scan_arg`, but for the range and for what changes on the way. `max_pages` is not 0:
`pagemap_scan_get_args` puts `ULONG_MAX` there. -/
structure ScanArg where
  /-- `PM_SCAN_WP_MATCHING`. -/
  wpMatching : Bool
  /-- `PM_SCAN_CHECK_WPASYNC`. -/
  checkWpasync : Bool
  categoryInverted : U64
  categoryMask : U64
  categoryAnyofMask : U64
  returnMask : U64
  maxPages : ℕ
  maxPages_pos : 0 < maxPages

/-- `masks_of_interest`. -/
def ScanArg.masksOfInterest (arg : ScanArg) : U64 :=
  arg.categoryMask ||| arg.categoryAnyofMask ||| arg.returnMask

variable (k : ScanFacts) (arg : ScanArg)

/-- `PAGE_IS_FILE`, where somebody is interested in it. -/
def fileCategory (page : Option U64) : U64 :=
  flagIf (arg.masksOfInterest &&& pageIsFile != 0 && page.any fun p => !k.folioTestAnon p)
    pageIsFile

/-- `pagemap_page_category`. -/
def pagemapPageCategory (vma : MapsVma) (page : ℕ) (pte : U64) : U64 :=
  if pteNone pte then 0
  else if ptePresent pte then
    pageIsPresent ||| flagIf (!pteUffdWp pte) pageIsWritten |||
      fileCategory k arg (k.vmNormalPage vma page pte) |||
      flagIf (k.isZeroPfn (ptePfn pte)) pageIsPfnzero ||| flagIf (pteSoftDirty pte) pageIsSoftDirty
  else
    let entry := k.softleaf pte
    pageIsSwapped ||| flagIf (!k.pteSwpUffdWpAny pte) pageIsWritten |||
      (if entry.guardMarker then pageIsGuard else fileCategory k arg entry.pfn) |||
      flagIf (pteSwpSoftDirty pte) pageIsSoftDirty

/-- `pagemap_thp_category`. -/
def pagemapThpCategory (vma : MapsVma) (pmd : U64) : U64 :=
  if pmdNone pmd then pageIsHuge
  else if pmdPresent pmd then
    pageIsHuge ||| pageIsPresent ||| flagIf (!pmdUffdWp pmd) pageIsWritten |||
      fileCategory k arg (k.vmNormalPagePmd vma pmd) |||
      flagIf (k.isHugeZeroPmd pmd) pageIsPfnzero ||| flagIf (pmdSoftDirty pmd) pageIsSoftDirty
  else
    pageIsHuge ||| pageIsSwapped ||| flagIf (!pmdSwpUffdWp pmd) pageIsWritten |||
      flagIf (pmdSwpSoftDirty pmd) pageIsSoftDirty ||| fileCategory k arg (k.softleaf pmd).pfn

/-- `pagemap_hugetlb_category`. -/
def pagemapHugetlbCategory (pte : U64) : U64 :=
  if pteNone pte then pageIsHuge
  else if ptePresent pte then
    pageIsHuge ||| pageIsPresent ||| flagIf (!k.hugePteUffdWp pte) pageIsWritten |||
      flagIf (!k.folioTestAnon (ptePfn pte)) pageIsFile |||
      flagIf (k.isZeroPfn (ptePfn pte)) pageIsPfnzero ||| flagIf (pteSoftDirty pte) pageIsSoftDirty
  else
    pageIsHuge ||| pageIsSwapped ||| flagIf (!k.pteSwpUffdWpAny pte) pageIsWritten |||
      flagIf (pteSwpSoftDirty pte) pageIsSoftDirty

/-- `pagemap_scan_is_interesting_page`. -/
def isInterestingPage (categories : U64) : Bool :=
  let categories := categories ^^^ arg.categoryInverted
  if categories &&& arg.categoryMask ≠ arg.categoryMask then false
  else if arg.categoryAnyofMask ≠ 0 ∧ categories &&& arg.categoryAnyofMask = 0 then false
  else true

/-- `pagemap_scan_is_interesting_vma`. -/
def isInterestingVma (categories : U64) : Bool :=
  let required := arg.categoryMask &&& pageIsWpallowed
  let categories := categories ^^^ arg.categoryInverted
  categories &&& required == required

/-- What `pagemap_scan_test_walk` says of a VMA. -/
inductive TestWalk where
  /-- `-EPERM`. -/
  | eperm
  /-- The VMA is left out. -/
  | skip
  /-- The VMA is walked, with this as `cur_vma_category`. -/
  | walk (vmaCategory : U64)

/-- `pagemap_scan_test_walk`. -/
def testWalk (vma : MapsVma) : TestWalk :=
  if !k.wpAllowed vma && arg.checkWpasync then .eperm
  else if !k.wpAllowed vma && arg.wpMatching then .skip
  else if vma.vmFlags &&& vmPfnmap ≠ 0 then .skip
  else
    let category := flagIf (k.wpAllowed vma) pageIsWpallowed |||
      flagIf (vma.vmFlags &&& vmSoftdirty != 0) pageIsSoftDirty
    if !isInterestingVma arg category then .skip else .walk category

/-! ## The buffer of regions -/

/-- `struct page_region`. -/
abbrev PageRegion := Run U64

/-- The part of `struct pagemap_scan_private` that changes, what the caller has got, and the pages
that are write-protected. -/
structure Scan where
  /-- There is a buffer: `vec_buf`. -/
  vecBuf : Bool
  /-- `arg.vec_len`: what is left of the caller's vector. -/
  vecLen : ℕ
  /-- `vec_buf_len`. -/
  vecBufLen : ℕ
  /-- The regions in the buffer before `vec_buf_index`. -/
  full : List PageRegion
  /-- The region at `vec_buf_index`. -/
  cur : PageRegion
  /-- `found_pages`. -/
  foundPages : ℕ
  /-- `arg.walk_end`. -/
  walkEnd : ℕ
  vec : List PageRegion
  wped : List ℕ

/-- The errors that a callback returns. -/
inductive Err where
  | enospc
  | eperm
  | enomem
  deriving DecidableEq

/-- `pagemap_scan_push_range`; `none` if it returns false. The length of the buffer is not 0. -/
def pushRange (categories : U64) (s : Scan) (addr stop : ℕ) : Option Scan :=
  if addr = s.cur.hi ∧ categories = s.cur.label then
    some { s with cur := { s.cur with hi := stop } }
  else if s.cur.hi ≠ 0 then
    if s.vecBufLen - 1 ≤ s.full.length then none
    else some { s with full := s.full ++ [s.cur], cur := ⟨addr, stop, categories⟩ }
  else some { s with cur := ⟨addr, stop, categories⟩ }

/-- What `pagemap_scan_output` returns, and `*end` after it. -/
structure Output where
  ret : Option Err
  stop : ℕ
  scan : Scan

/-- `pagemap_scan_output`. -/
def output (categories : U64) (s : Scan) (addr stop : ℕ) : Output :=
  if !s.vecBuf then ⟨none, stop, s⟩
  else
    let categories := categories &&& arg.returnMask
    let tooMuch := s.foundPages + (stop - addr) - arg.maxPages
    let stop := stop - tooMuch
    match pushRange categories s addr stop with
    | none => ⟨some .enospc, addr, { s with walkEnd := addr }⟩
    | some s =>
      let s := { s with foundPages := s.foundPages + (stop - addr) }
      if tooMuch = 0 then ⟨none, stop, s⟩ else ⟨some .enospc, stop, { s with walkEnd := stop }⟩

/-- `pagemap_scan_backout_range`. -/
def backoutRange (s : Scan) (addr stop : ℕ) : Scan :=
  if !s.vecBuf then s
  else
    { s with
      cur := if s.cur.lo ≠ addr then { s.cur with hi := addr } else { s.cur with lo := 0, hi := 0 }
      foundPages := s.foundPages - (stop - addr) }

/-- The pages from `lo` to `hi` are write-protected. -/
def Scan.wp (s : Scan) (lo hi : ℕ) : Scan :=
  { s with wped := s.wped ++ List.range' lo (hi - lo) }

/-! ## The callbacks -/

/-- The page is write-protected already, or has a marker that says so. -/
def isWped (pte : U64) : Bool := ptePresent pte && pteUffdWp pte || k.pteSwpUffdWpAny pte

/-- The case that the loops over a page table have a way of its own for. -/
def fastPath : Bool :=
  arg.categoryAnyofMask == 0 && arg.categoryInverted == 0 && arg.categoryMask == pageIsWritten &&
    arg.returnMask == pageIsWritten

/-- The categories of a page of a page table, if the loop of the fast path reports it. -/
def fastOffer (vmaCategory pte : U64) : Option U64 :=
  if isWped k pte then none else some (vmaCategory ||| pageIsWritten)

/-- The categories of a page of a page table, if the other loop reports it. -/
def plainOffer (vmaCategory : U64) (vma : MapsVma) (page : ℕ) (pte : U64) : Option U64 :=
  let categories := vmaCategory ||| pagemapPageCategory k arg vma page pte
  if isInterestingPage arg categories then some categories else none

/-- The categories of a page of a page table, if it is reported. -/
def pteOffer (vmaCategory : U64) (vma : MapsVma) (page : ℕ) (pte : U64) : Option U64 :=
  if fastPath arg then fastOffer k vmaCategory pte else plainOffer k arg vmaCategory vma page pte

/-- The loop over the pages of a page table that reports them, from the page `page` on. -/
def reportLoop (offer : ℕ → Option U64) : (n page : ℕ) → Option Err → Scan → Option Err × Scan
  | 0, _, ret, s => (ret, s)
  | n + 1, page, ret, s =>
    match offer page with
    | none => reportLoop offer n (page + 1) ret s
    | some categories =>
      let done := output arg categories s page (page + 1)
      if done.stop = page then (done.ret, done.scan)
      else if arg.wpMatching && categories &&& pageIsWritten != 0 then
        reportLoop offer n (page + 1) done.ret (done.scan.wp page (page + 1))
      else reportLoop offer n (page + 1) done.ret done.scan

/-- `pagemap_scan_pmd_entry`, for a page table. -/
def tableEntry (vmaCategory : U64) (vma : MapsVma) (lo hi : ℕ) (ptes : ℕ → U64) (s : Scan) :
    Option Err × Scan :=
  if arg.wpMatching && !s.vecBuf then
    -- only to write-protect
    (none, { s with
      wped := s.wped ++ (List.range' lo (hi - lo)).filter fun page => !isWped k (ptes page) })
  else
    reportLoop arg (fun page => pteOffer k arg vmaCategory vma page (ptes page)) (hi - lo) lo none s

/-- `pagemap_scan_thp_entry`, and `pagemap_scan_pmd_entry` behind it where the huge page is split.
-/
def thpEntry (vmaCategory : U64) (vma : MapsVma) (lo hi : ℕ) (pmd : U64) (s : Scan) :
    Option Err × Scan :=
  let categories := vmaCategory ||| pagemapThpCategory k arg vma pmd
  if !isInterestingPage arg categories then (none, s)
  else
    let done := output arg categories s lo hi
    if done.stop = lo ∨ arg.wpMatching = false ∨ categories &&& pageIsWritten = 0 then
      (done.ret, done.scan)
    else if done.stop ≠ lo + 512 then
      tableEntry k arg vmaCategory vma lo hi (k.splitHugePmd pmd)
        (backoutRange done.scan lo done.stop)
    else (done.ret, done.scan.wp lo done.stop)

/-- `pagemap_scan_hugetlb_entry`. -/
def hugetlbEntry (vmaCategory : U64) (lo hi : ℕ) (pte : U64) (s : Scan) : Option Err × Scan :=
  let categories := vmaCategory ||| pagemapHugetlbCategory k pte
  if !isInterestingPage arg categories then (none, s)
  else
    let done := output arg categories s lo hi
    if arg.wpMatching = false ∨ done.stop = lo ∨ categories &&& pageIsWritten = 0 then
      (done.ret, done.scan)
    else if done.stop ≠ lo + 512 then
      (none, { backoutRange done.scan lo done.stop with walkEnd := lo })
    else (done.ret, done.scan.wp lo done.stop)

/-- `pagemap_scan_pte_hole`, in a VMA. -/
def pteHole (vmaCategory : U64) (lo hi : ℕ) (s : Scan) : Option Err × Scan :=
  if !isInterestingPage arg vmaCategory then (none, s)
  else
    let done := output arg vmaCategory s lo hi
    if done.stop = lo ∨ arg.wpMatching = false then (done.ret, done.scan)
    else if k.uffdWpRange lo done.stop then (done.ret, done.scan.wp lo done.stop)
    else (some .enomem, done.scan)

/-- A callback of `pagemap_scan_ops`. -/
def callback (vmaCategory : U64) (s : Scan) : Call → Option Err × Scan
  | .hole lo hi => pteHole k arg vmaCategory lo hi s
  | .table vma lo hi ptes => tableEntry k arg vmaCategory vma lo hi ptes s
  | .thp vma lo hi pmd => thpEntry k arg vmaCategory vma lo hi pmd s
  | .again => (none, s)
  | .hugetlb _ lo hi _ pte _ => hugetlbEntry k arg vmaCategory lo hi pte s

/-- Calls, until one of them does not return 0. -/
def untilError {α : Type} (call : α → Scan → Option Err × Scan) :
    List α → Scan → Option Err × Scan
  | [], s => (none, s)
  | x :: xs, s =>
    match call x s with
    | (none, s) => untilError call xs s
    | done => done

/-- What the walk finds from one place to another: a VMA, with the calls for it, or none. -/
structure Area where
  vma : Option MapsVma
  calls : List Call

/-- The walk over an area. Without a VMA, `pagemap_scan_pte_hole` returns 0. -/
def walkArea (area : Area) (s : Scan) : Option Err × Scan :=
  match area.vma with
  | none => (none, s)
  | some vma =>
    match testWalk k arg vma with
    | .eperm => (some .eperm, s)
    | .skip => (none, s)
    | .walk category => untilError (fun call s => callback k arg category s call) area.calls s

/-- `walk_page_range`. -/
def walkPageRange (areas : List Area) (s : Scan) : Option Err × Scan :=
  untilError (walkArea k arg) areas s

/-! ## `do_pagemap_scan` -/

/-- The regions in the buffer. -/
def Scan.live (s : Scan) : List PageRegion :=
  s.full ++ if s.cur.lo = s.cur.hi then [] else [s.cur]

/-- `pagemap_scan_flush_buffer`: how many regions the caller gets, and `none` for `-EFAULT`. -/
def flushBuffer (copied : Bool) (s : Scan) : Option (ℕ × Scan) :=
  let n := s.live.length
  if !s.vecBuf || n == 0 then some (0, s)
  else if !copied then none
  else
    some (n, { s with
      vecLen := s.vecLen - n
      vec := s.vec ++ s.live
      full := []
      vecBufLen := min s.vecBufLen (s.vecLen - n)
      cur := ⟨0, 0, (s.full.headD s.cur).label⟩ })

/-- What a round of `do_pagemap_scan` meets. -/
structure Round where
  /-- `fatal_signal_pending`. -/
  signal : Bool
  /-- `mmap_read_lock_killable` succeeds. -/
  locked : Bool
  /-- The walk from one page to another. -/
  walk : (lo hi : ℕ) → List Area
  /-- `copy_to_user` copies the regions. -/
  copied : Bool

/-- The loop of `do_pagemap_scan`, which gets further with each round: `ret` behind it, and the
number of the regions. -/
def scanLoop (stop : ℕ) (rounds : ℕ → Round) :
    (n i walkStart : ℕ) → (ret : ℤ) → (nOut : ℕ) → Scan → ℤ × ℕ × Scan
  | 0, _, _, ret, nOut, s => (ret, nOut, s)
  | n + 1, i, walkStart, ret, nOut, s =>
    if stop ≤ walkStart then (ret, nOut, s)
    else if (rounds i).signal then (-4, nOut, s)
    else if !(rounds i).locked then (-4, nOut, s)
    else
      match walkPageRange k arg ((rounds i).walk walkStart stop) s with
      | (err, s) =>
        match flushBuffer (rounds i).copied s with
        | none => (-14, nOut, s)
        | some (m, s) =>
          match err with
          | none => (0, nOut + m, s)
          | some .eperm => (-1, nOut + m, s)
          | some .enomem => (-12, nOut + m, s)
          | some .enospc =>
            if s.vecLen = 0 ∨ s.foundPages = arg.maxPages then (-28, nOut + m, s)
            else scanLoop stop rounds n (i + 1) s.walkEnd (-28) (nOut + m) s

/-- What the scan returns, the regions that the caller got, and the `walk_end` that it reads. -/
structure ScanResult where
  ret : ℤ
  vec : List PageRegion
  walkEnd : ℕ
  wped : List ℕ

/-- The state before the first walk. -/
def Scan.start (vecLen : ℕ) (label : U64) : Scan where
  vecBuf := vecLen != 0
  vecLen := vecLen
  vecBufLen := min 512 vecLen
  full := []
  cur := ⟨0, 0, label⟩
  foundPages := 0
  walkEnd := 0
  vec := []
  wped := []

/-- What `do_pagemap_scan` makes of the end of its loop. The number of the regions becomes an `int`.
-/
def ScanResult.ofLoop (stop : ℕ) : ℤ × ℕ × Scan → ScanResult
  | (ret, nOut, s) =>
    { ret := if ret = 0 ∨ ret = -28 then (BitVec.ofNat 32 nOut).toInt else ret
      vec := s.vec
      walkEnd := if s.walkEnd = 0 then stop else s.walkEnd
      wped := s.wped }

/-- `do_pagemap_scan`, with valid arguments, memory for its buffer, in which there is `label` at
first, and an argument block that it can write to. -/
def doPagemapScan (start stop vecLen : ℕ) (label : U64) (rounds : ℕ → Round) : ScanResult :=
  .ofLoop stop (scanLoop k arg stop rounds (stop - start) 0 start 0 0 (Scan.start vecLen label))

/-! ## What a scan reports -/

/-- What is known of the areas of a walk from the page `lo` to the page `hi`. -/
inductive Areas (a : AddressSpace) (hi : ℕ) : ℕ → List Area → Prop
  | done : Areas a hi hi []
  | gap {lo mid : ℕ} {areas : List Area} : lo ≤ mid → mid ≤ hi →
      (∀ page, lo ≤ page → page < mid → a.vmaAt page = none) →
      Areas a hi mid areas → Areas a hi lo (⟨none, []⟩ :: areas)
  | vma {lo mid : ℕ} {areas : List Area} {vma : MapsVma} {calls : List Call} : lo ≤ mid → mid ≤ hi →
      (∀ page, lo ≤ page → page < mid → a.vmaAt page = some vma) →
      PagemapRead.Walks a mid lo calls → Areas a hi mid areas →
      Areas a hi lo (⟨some vma, calls⟩ :: areas)

/-- The categories of a page of a VMA, if it is reported. -/
def pageOffer (a : AddressSpace) (vmaCategory : U64) (vma : MapsVma) (page : ℕ) : Option U64 :=
  match a.mapping page with
  | .hole => if isInterestingPage arg vmaCategory then some vmaCategory else none
  | .pte pte => pteOffer k arg vmaCategory vma page pte
  | .thp pmd =>
    let categories := vmaCategory ||| pagemapThpCategory k arg vma pmd
    if isInterestingPage arg categories then some categories else none
  | .hugetlb _ pte _ =>
    let categories := vmaCategory ||| pagemapHugetlbCategory k pte
    if isInterestingPage arg categories then some categories else none

/-- The categories that the scan reports a page with, if it does. -/
def reported (a : AddressSpace) (page : ℕ) : Option U64 :=
  match a.vmaAt page with
  | none => none
  | some vma =>
    match testWalk k arg vma with
    | .walk category => (pageOffer k arg a category vma page).map (· &&& arg.returnMask)
    | _ => none

end PagemapScan

end KernelPortfolio
