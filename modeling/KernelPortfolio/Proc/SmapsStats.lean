import KernelPortfolio.Headers.PteOps
import KernelPortfolio.Lib.Tally
import KernelPortfolio.Proc.PagemapRead
import KernelPortfolio.Proc.SmapsFormat
import Mathlib.Tactic.Linarith

/-!
# What `/proc/PID/smaps` counts

For each VMA a walk over the page tables adds up what is mapped: in bytes, and the proportional
shares in bytes shifted by `PSS_SHIFT`. The counters are natural numbers: an address space has fewer
than 2^47 bytes, and so none of them overflows.

`Smaps.Consistent` is what the counters say of each other, and holds after every walk
(`consistent_gatherStats`). A page that several processes map counts for each of them in proportion;
`pss_total` says that these shares add up to the page, but for at most one unit for each mapping
beyond the first.
-/

namespace KernelPortfolio

/-- `struct mem_size_stats`. -/
@[ext]
structure Stats where
  resident : ℕ
  sharedClean : ℕ
  sharedDirty : ℕ
  privateClean : ℕ
  privateDirty : ℕ
  referenced : ℕ
  anonymous : ℕ
  lazyfree : ℕ
  anonymousThp : ℕ
  shmemThp : ℕ
  fileThp : ℕ
  swap : ℕ
  sharedHugetlb : ℕ
  privateHugetlb : ℕ
  ksm : ℕ
  pss : ℕ
  pssAnon : ℕ
  pssFile : ℕ
  pssShmem : ℕ
  pssDirty : ℕ
  pssLocked : ℕ
  swapPss : ℕ
  deriving DecidableEq, Repr

instance : Zero Stats := ⟨⟨0, 0, 0, 0, 0, 0, 0, 0, 0, 0, 0, 0, 0, 0, 0, 0, 0, 0, 0, 0, 0, 0⟩⟩

instance : Add Stats where
  add a b :=
    { resident := a.resident + b.resident
      sharedClean := a.sharedClean + b.sharedClean
      sharedDirty := a.sharedDirty + b.sharedDirty
      privateClean := a.privateClean + b.privateClean
      privateDirty := a.privateDirty + b.privateDirty
      referenced := a.referenced + b.referenced
      anonymous := a.anonymous + b.anonymous
      lazyfree := a.lazyfree + b.lazyfree
      anonymousThp := a.anonymousThp + b.anonymousThp
      shmemThp := a.shmemThp + b.shmemThp
      fileThp := a.fileThp + b.fileThp
      swap := a.swap + b.swap
      sharedHugetlb := a.sharedHugetlb + b.sharedHugetlb
      privateHugetlb := a.privateHugetlb + b.privateHugetlb
      ksm := a.ksm + b.ksm
      pss := a.pss + b.pss
      pssAnon := a.pssAnon + b.pssAnon
      pssFile := a.pssFile + b.pssFile
      pssShmem := a.pssShmem + b.pssShmem
      pssDirty := a.pssDirty + b.pssDirty
      pssLocked := a.pssLocked + b.pssLocked
      swapPss := a.swapPss + b.swapPss }

/-- The counters are added one by one. -/
instance : AddCommMonoid Stats where
  add_assoc a b c := Stats.ext (Nat.add_assoc ..) (Nat.add_assoc ..) (Nat.add_assoc ..)
    (Nat.add_assoc ..) (Nat.add_assoc ..) (Nat.add_assoc ..) (Nat.add_assoc ..) (Nat.add_assoc ..)
    (Nat.add_assoc ..) (Nat.add_assoc ..) (Nat.add_assoc ..) (Nat.add_assoc ..) (Nat.add_assoc ..)
    (Nat.add_assoc ..) (Nat.add_assoc ..) (Nat.add_assoc ..) (Nat.add_assoc ..) (Nat.add_assoc ..)
    (Nat.add_assoc ..) (Nat.add_assoc ..) (Nat.add_assoc ..) (Nat.add_assoc ..)
  zero_add a := Stats.ext (Nat.zero_add _) (Nat.zero_add _) (Nat.zero_add _) (Nat.zero_add _)
    (Nat.zero_add _) (Nat.zero_add _) (Nat.zero_add _) (Nat.zero_add _) (Nat.zero_add _)
    (Nat.zero_add _) (Nat.zero_add _) (Nat.zero_add _) (Nat.zero_add _) (Nat.zero_add _)
    (Nat.zero_add _) (Nat.zero_add _) (Nat.zero_add _) (Nat.zero_add _) (Nat.zero_add _)
    (Nat.zero_add _) (Nat.zero_add _) (Nat.zero_add _)
  add_zero a := rfl
  add_comm a b := Stats.ext (Nat.add_comm ..) (Nat.add_comm ..) (Nat.add_comm ..)
    (Nat.add_comm ..) (Nat.add_comm ..) (Nat.add_comm ..) (Nat.add_comm ..) (Nat.add_comm ..)
    (Nat.add_comm ..) (Nat.add_comm ..) (Nat.add_comm ..) (Nat.add_comm ..) (Nat.add_comm ..)
    (Nat.add_comm ..) (Nat.add_comm ..) (Nat.add_comm ..) (Nat.add_comm ..) (Nat.add_comm ..)
    (Nat.add_comm ..) (Nat.add_comm ..) (Nat.add_comm ..) (Nat.add_comm ..)
  nsmul := nsmulRec

@[simp] theorem Stats.pss_zero : (0 : Stats).pss = 0 := rfl

@[simp] theorem Stats.pss_add (a b : Stats) : (a + b).pss = a.pss + b.pss := rfl

/-- What the kernel knows of the pages and of the VMAs, beside what `pagemap_read` does. -/
structure SmapsFacts extends PageFacts where
  /-- `folio_test_swapbacked`, as all of these of the folio of a page. -/
  folioTestSwapbacked : U64 → Bool
  /-- `folio_test_dirty`. -/
  folioTestDirty : U64 → Bool
  /-- `folio_test_ksm`. -/
  folioTestKsm : U64 → Bool
  /-- `folio_test_young`. -/
  folioTestYoung : U64 → Bool
  /-- `folio_test_referenced`. -/
  folioTestReferenced : U64 → Bool
  /-- `folio_is_zone_device`. -/
  folioIsZoneDevice : U64 → Bool
  /-- `folio_ref_count`. -/
  folioRefCount : U64 → ℤ
  /-- `folio_average_page_mapcount`. -/
  averagePageMapcount : U64 → ℤ
  /-- `compound_nr`. -/
  compoundNr : U64 → ℕ
  /-- `softleaf_is_swap`, of the entry that a page-table entry holds. -/
  softleafIsSwap : U64 → Bool
  /-- `softleaf_is_device_private`. -/
  softleafIsDevicePrivate : U64 → Bool
  /-- `swp_swapcount`. -/
  swpSwapcount : U64 → ℤ
  /-- `vm_normal_page_pmd`, where it returns a page. -/
  vmNormalPagePmd : (vma : MapsVma) → (pmd : U64) → Option U64
  /-- `huge_page_size`. -/
  hugePageSize : MapsVma → ℕ
  /-- The VMA maps a file, and `shmem_mapping`. -/
  shmemMapping : MapsVma → Bool
  /-- `shmem_swap_usage`. -/
  shmemSwapUsage : MapsVma → ℕ
  /-- `shmem_partial_swap_usage`, of the pages from one to another. -/
  shmemPartialSwapUsage : (vma : MapsVma) → (lo hi : ℕ) → ℕ

/-- `VM_SHARED`. -/
def vmShared : U64 := .twoPow 64 3

/-- `VM_LOCKED`. -/
def vmLocked : U64 := .twoPow 64 13

namespace Smaps

open PagemapRead (Call)

/-- `PAGE_SIZE`. -/
def pageSize : ℕ := 4096

/-- `PAGE_SIZE << PSS_SHIFT`. -/
def pagePss : ℕ := 4096 * 2^12

variable (k : SmapsFacts)

/-- `smaps_page_accumulate`. -/
def pageAccumulate (page : U64) (size pss : ℕ) (dirty locked isPrivate : Bool) (mss : Stats) :
    Stats :=
  let mss := { mss with pss := mss.pss + pss }
  let mss :=
    if k.folioTestAnon page then { mss with pssAnon := mss.pssAnon + pss }
    else if k.folioTestSwapbacked page then { mss with pssShmem := mss.pssShmem + pss }
    else { mss with pssFile := mss.pssFile + pss }
  let mss := if locked then { mss with pssLocked := mss.pssLocked + pss } else mss
  if dirty || k.folioTestDirty page then
    let mss := { mss with pssDirty := mss.pssDirty + pss }
    if isPrivate then { mss with privateDirty := mss.privateDirty + size }
    else { mss with sharedDirty := mss.sharedDirty + size }
  else if isPrivate then { mss with privateClean := mss.privateClean + size }
  else { mss with sharedClean := mss.sharedClean + size }

/-- `mapcount` for a page, whose folio is that of `head`. -/
def mapcount (head page : U64) : ℤ :=
  if k.pageMapcount then k.precisePageMapcount page else k.averagePageMapcount head

/-- `exclusive` for a page. -/
def exclusive (head page : U64) : Bool :=
  if k.pageMapcount then mapcount k head page < 2 else !k.maybeMappedShared head

/-- The share of a page. -/
def pageShare (head page : U64) : ℕ :=
  if 2 ≤ mapcount k head page then pagePss / (mapcount k head page).toNat else pagePss

/-- `smaps_account`. -/
def account (page : U64) (compound young dirty locked present : Bool) (mss : Stats) : Stats :=
  let nr := if compound then k.compoundNr page else 1
  let size := nr * pageSize
  let mss :=
    if k.folioTestAnon page then
      let mss := { mss with anonymous := mss.anonymous + size }
      if !k.folioTestSwapbacked page && !dirty && !k.folioTestDirty page then
        { mss with lazyfree := mss.lazyfree + size }
      else mss
    else mss
  let mss := if k.folioTestKsm page then { mss with ksm := mss.ksm + size } else mss
  let mss := { mss with resident := mss.resident + size }
  let mss :=
    if young || k.folioTestYoung page || k.folioTestReferenced page then
      { mss with referenced := mss.referenced + size }
    else mss
  if k.folioRefCount page = 1 ∨ present = false then
    pageAccumulate k page size (size * 2^12) dirty locked present mss
  else
    (List.range nr).foldl (fun mss i =>
      pageAccumulate k page pageSize (pageShare k page (page + BitVec.ofNat 64 i)) dirty locked
        (exclusive k page (page + BitVec.ofNat 64 i)) mss) mss

/-- `smaps_pte_entry`. `shmem` is for the walks that have `smaps_pte_hole`. -/
def pteEntry (shmem : Bool) (vma : MapsVma) (page : ℕ) (pte : U64) (mss : Stats) : Stats :=
  let locked := vma.vmFlags &&& vmLocked != 0
  if ptePresent pte then
    match k.vmNormalPage vma page pte with
    | none => mss
    | some p => account k p false (pteYoung pte) (pteDirty pte) locked true mss
  else if pteNone pte then
    if shmem then { mss with swap := mss.swap + k.shmemPartialSwapUsage vma page (page + 1) }
    else mss
  else if k.softleafIsSwap pte then
    { mss with
      swap := mss.swap + pageSize
      swapPss := mss.swapPss +
        if 2 ≤ k.swpSwapcount pte then pagePss / (k.swpSwapcount pte).toNat else pagePss }
  else
    match (k.softleaf pte).pfn with
    | none => mss
    | some p => account k p false false false locked (k.softleafIsDevicePrivate pte) mss

/-- `smaps_pmd_entry`. -/
def pmdEntry (vma : MapsVma) (pmd : U64) (mss : Stats) : Stats :=
  let locked := vma.vmFlags &&& vmLocked != 0
  let page :=
    if pmdNone pmd then none
    else if pmdPresent pmd then k.vmNormalPagePmd vma pmd
    else if k.thpMigrationSupported then (k.softleaf pmd).pfn
    else none
  match page with
  | none => mss
  | some p =>
    let mss :=
      if k.folioTestAnon p then { mss with anonymousThp := mss.anonymousThp + 512 * pageSize }
      else if k.folioTestSwapbacked p then { mss with shmemThp := mss.shmemThp + 512 * pageSize }
      else if k.folioIsZoneDevice p then mss
      else { mss with fileThp := mss.fileThp + 512 * pageSize }
    account k p true (pmdYoung pmd) (pmdDirty pmd) locked (pmdPresent pmd) mss

/-- `smaps_hugetlb_range`. -/
def hugetlbRange (vma : MapsVma) (pte : U64) (shared : Bool) (mss : Stats) : Stats :=
  let folio := if ptePresent pte then some (ptePfn pte) else (k.softleaf pte).pfn
  match folio with
  | none => mss
  | some p =>
    if !ptePresent pte || k.maybeMappedShared p || shared then
      { mss with sharedHugetlb := mss.sharedHugetlb + k.hugePageSize vma }
    else { mss with privateHugetlb := mss.privateHugetlb + k.hugePageSize vma }

/-- A call of one of the walks. -/
def call (shmem : Bool) (vma : MapsVma) (mss : Stats) : Call → Stats
  | .hole lo hi =>
    if shmem then { mss with swap := mss.swap + k.shmemPartialSwapUsage vma lo hi } else mss
  | .table _ lo hi ptes =>
    (List.range' lo (hi - lo)).foldl (fun mss page => pteEntry k shmem vma page (ptes page) mss) mss
  | .thp _ _ _ pmd => pmdEntry k vma pmd mss
  | .again => mss
  | .hugetlb _ _ _ _ pte shared => hugetlbRange k vma pte shared mss

/-- `smap_gather_stats`, from `start`. `calls` are those of the walk. -/
def gatherStats (vma : MapsVma) (start : ℕ) (calls : List Call) (mss : Stats) : Stats :=
  if vma.hi ≤ start then mss
  else
    let plain := start = 0 ∧ (k.shmemSwapUsage vma = 0 ∨ vma.vmFlags &&& vmShared ≠ 0 ∨
      vma.vmFlags &&& vmWrite = 0)
    if k.shmemMapping vma then
      if plain then
        calls.foldl (call k false vma) { mss with swap := mss.swap + k.shmemSwapUsage vma }
      else calls.foldl (call k true vma) mss
    else calls.foldl (call k false vma) mss

/-! ## Each step adds to the counters -/

section Adds

open Tally

/-- What `smaps_page_accumulate` adds. -/
def pageStats (page : U64) (size pss : ℕ) (dirty locked isPrivate : Bool) : Stats :=
  let anon := k.folioTestAnon page
  let shmem := !anon && k.folioTestSwapbacked page
  let dirty := dirty || k.folioTestDirty page
  { (0 : Stats) with
    pss := pss
    pssAnon := if anon then pss else 0
    pssShmem := if shmem then pss else 0
    pssFile := if anon || shmem then 0 else pss
    pssLocked := if locked then pss else 0
    pssDirty := if dirty then pss else 0
    privateDirty := if dirty && isPrivate then size else 0
    sharedDirty := if dirty && !isPrivate then size else 0
    privateClean := if !dirty && isPrivate then size else 0
    sharedClean := if !dirty && !isPrivate then size else 0 }

/-- What `smaps_account` adds for the entry as a whole. -/
def entryStats (page : U64) (size : ℕ) (young dirty : Bool) : Stats :=
  { (0 : Stats) with
    resident := size
    anonymous := if k.folioTestAnon page then size else 0
    lazyfree := if k.folioTestAnon page &&
      (!k.folioTestSwapbacked page && !dirty && !k.folioTestDirty page) then size else 0
    ksm := if k.folioTestKsm page then size else 0
    referenced :=
      if young || k.folioTestYoung page || k.folioTestReferenced page then size else 0 }

variable {k} {s : Stats}

/-- `smaps_page_accumulate` adds. -/
theorem pageAccumulate_eq (page : U64) (size pss : ℕ) (dirty locked isPrivate : Bool) (s : Stats) :
    pageAccumulate k page size pss dirty locked isPrivate s =
      s + pageStats k page size pss dirty locked isPrivate := by
  unfold pageAccumulate pageStats
  cases k.folioTestAnon page <;> cases k.folioTestSwapbacked page <;> cases locked <;>
    cases dirty || k.folioTestDirty page <;> cases isPrivate <;> rfl

/-- `smaps_account` adds what it adds for the entry, and then what it does for the pages. -/
theorem account_eq (page : U64) (compound young dirty locked present : Bool) (s : Stats) :
    account k page compound young dirty locked present s =
      let nr := if compound then k.compoundNr page else 1
      let size := nr * pageSize
      if k.folioRefCount page = 1 ∨ present = false then
        s + entryStats k page size young dirty +
          pageStats k page size (size * 2^12) dirty locked present
      else
        (List.range nr).foldl (fun mss i =>
          mss + pageStats k page pageSize (pageShare k page (page + BitVec.ofNat 64 i)) dirty locked
            (exclusive k page (page + BitVec.ofNat 64 i)))
          (s + entryStats k page size young dirty) := by
  simp only [← pageAccumulate_eq]
  unfold account entryStats
  cases k.folioTestAnon page <;> cases k.folioTestKsm page <;>
    cases young || k.folioTestYoung page || k.folioTestReferenced page <;>
    cases !k.folioTestSwapbacked page && !dirty && !k.folioTestDirty page <;> rfl

/-- `smaps_account` adds. -/
theorem adds_account (page : U64) (compound young dirty locked present : Bool) :
    Adds (account k page compound young dirty locked present) := by
  have hentry (m : Stats) : Adds fun s => s + m := .of_eq fun _ => rfl
  by_cases h : k.folioRefCount page = 1 ∨ present = false
  · have heq := fun s =>
      (account_eq page compound young dirty locked present s).trans (if_pos h)
    rw [funext heq]
    exact (hentry _).comp (hentry _)
  · have heq := fun s =>
      (account_eq page compound young dirty locked present s).trans (if_neg h)
    rw [funext heq]
    exact (Adds.foldl fun _ _ => hentry _).comp (hentry _)

/-- `smaps_pte_entry` adds. -/
theorem adds_pteEntry (shmem : Bool) (vma : MapsVma) (page : ℕ) (pte : U64) :
    Adds (pteEntry k shmem vma page pte) := by
  unfold pteEntry
  by_cases hpresent : ptePresent pte
  · simp only [hpresent, if_true]
    cases k.vmNormalPage vma page pte with
    | none => exact .id
    | some p => exact adds_account _ _ _ _ _ _
  · by_cases hnone : pteNone pte
    · simp only [hpresent, hnone, if_true, Bool.false_eq_true, if_false]
      cases shmem
      · exact .id
      · exact .of_eq (m := { (0 : Stats) with swap := _ }) fun _ => rfl
    · by_cases hswap : k.softleafIsSwap pte
      · simp only [hpresent, hnone, hswap, if_true, Bool.false_eq_true, if_false]
        exact .of_eq (m := { (0 : Stats) with swap := _, swapPss := _ }) fun _ => rfl
      · simp only [hpresent, hnone, hswap, Bool.false_eq_true, if_false]
        cases (k.softleaf pte).pfn with
        | none => exact .id
        | some p => exact adds_account _ _ _ _ _ _

/-- `smaps_pmd_entry` adds. -/
theorem adds_pmdEntry (vma : MapsVma) (pmd : U64) : Adds (pmdEntry k vma pmd) := by
  unfold pmdEntry
  dsimp only
  split
  · exact .id
  · apply (adds_account _ _ _ _ _ _).comp
    split_ifs
    · exact .of_eq (m := { (0 : Stats) with anonymousThp := _ }) fun _ => rfl
    · exact .of_eq (m := { (0 : Stats) with shmemThp := _ }) fun _ => rfl
    · exact .id
    · exact .of_eq (m := { (0 : Stats) with fileThp := _ }) fun _ => rfl

/-- `smaps_hugetlb_range` adds. -/
theorem adds_hugetlbRange (vma : MapsVma) (pte : U64) (shared : Bool) :
    Adds (hugetlbRange k vma pte shared) := by
  unfold hugetlbRange
  cases (if ptePresent pte then some (ptePfn pte) else (k.softleaf pte).pfn) with
  | none => exact .id
  | some p =>
    dsimp only
    split_ifs
    · exact .of_eq (m := { (0 : Stats) with sharedHugetlb := _ }) fun _ => rfl
    · exact .of_eq (m := { (0 : Stats) with privateHugetlb := _ }) fun _ => rfl

/-- A call adds. -/
theorem adds_call (shmem : Bool) (vma : MapsVma) (c : Call) :
    Adds fun s => call k shmem vma s c := by
  cases c with
  | hole lo hi =>
    unfold call
    split_ifs
    · exact .of_eq (m := { (0 : Stats) with swap := _ }) fun _ => rfl
    · exact .id
  | table vma' lo hi ptes => exact .foldl fun page _ => adds_pteEntry shmem vma page (ptes page)
  | thp vma' lo hi pmd => exact adds_pmdEntry vma pmd
  | again => exact .id
  | hugetlb vma' lo hi size pte shared => exact adds_hugetlbRange vma pte shared

/-- `smap_gather_stats` adds. -/
theorem adds_gatherStats (vma : MapsVma) (start : ℕ) (calls : List Call) :
    Adds (gatherStats k vma start calls) := by
  have hwalk (shmem : Bool) : Adds fun s => calls.foldl (call k shmem vma) s :=
    .foldl fun c _ => adds_call shmem vma c
  unfold gatherStats
  dsimp only
  split_ifs
  · exact .id
  · exact (hwalk false).comp (.of_eq (m := { (0 : Stats) with swap := _ }) fun _ => rfl)
  · exact hwalk true
  · exact hwalk false

end Adds

/-! ## What the counters say of each other -/

/-- What holds of the counters, with `d` bytes that are counted as resident and nothing else yet. -/
structure Consistent (d : ℕ) (s : Stats) : Prop where
  resident : s.resident = s.sharedClean + s.sharedDirty + s.privateClean + s.privateDirty + d
  pages : pageSize ∣ s.sharedClean ∧ pageSize ∣ s.sharedDirty ∧ pageSize ∣ s.privateClean ∧
    pageSize ∣ s.privateDirty
  pss : s.pss = s.pssAnon + s.pssFile + s.pssShmem
  pss_le : s.pss ≤ (s.sharedClean + s.sharedDirty + s.privateClean + s.privateDirty) * 2^12
  pssDirty_le : s.pssDirty ≤ s.pss ∧ s.pssDirty ≤ (s.sharedDirty + s.privateDirty) * 2^12
  pssLocked_le : s.pssLocked ≤ s.pss
  le_resident : s.referenced ≤ s.resident ∧ s.anonymous ≤ s.resident ∧ s.ksm ≤ s.resident
  lazyfree_le : s.lazyfree ≤ s.anonymous
  /-- With `CONFIG_PAGE_MAPCOUNT`, what is private counts in full. -/
  private_le : k.pageMapcount = true →
    (s.privateClean + s.privateDirty) * 2^12 ≤ s.pss ∧ s.privateDirty * 2^12 ≤ s.pssDirty

variable {k} {d : ℕ} {s : Stats}

/-- It holds when nothing is counted. -/
theorem consistent_zero : Consistent k 0 0 where
  resident := rfl
  pages := by decide
  pss := rfl
  pss_le := le_rfl
  pssDirty_le := ⟨le_rfl, le_rfl⟩
  pssLocked_le := le_rfl
  le_resident := by decide
  lazyfree_le := le_rfl
  private_le _ := by decide

/-- `smaps_account` counts an entry. -/
theorem consistent_entryStats (page : U64) (size : ℕ) (young dirty : Bool)
    (h : Consistent k d s) : Consistent k (d + size) (s + entryStats k page size young dirty) := by
  have hle (b : Bool) : (if b then size else 0) ≤ size := by cases b <;> simp
  have hlazy (a b : Bool) : (if a && b then size else 0) ≤ if a then size else 0 := by
    cases a <;> cases b <;> simp
  obtain ⟨href, hanon, hksm⟩ := h.le_resident
  exact
    { resident := (congrArg (· + size) h.resident).trans (Nat.add_assoc ..)
      pages := h.pages
      pss := h.pss
      pss_le := h.pss_le
      pssDirty_le := h.pssDirty_le
      pssLocked_le := h.pssLocked_le
      le_resident := ⟨Nat.add_le_add href (hle _), Nat.add_le_add hanon (hle _),
        Nat.add_le_add hksm (hle _)⟩
      lazyfree_le := Nat.add_le_add h.lazyfree_le (hlazy _ _)
      private_le := h.private_le }

/-- `smaps_page_accumulate` counts bytes that are resident. -/
theorem consistent_pageStats {size pss : ℕ} (page : U64) (dirty locked isPrivate : Bool)
    (h : Consistent k (d + size) s) (hsize : pageSize ∣ size) (hpss : pss ≤ size * 2^12)
    (hprivate : k.pageMapcount = true → isPrivate = true → pss = size * 2^12) :
    Consistent k d (s + pageStats k page size pss dirty locked isPrivate) := by
  have hdvd (b : Bool) {n : ℕ} (hn : pageSize ∣ n) : pageSize ∣ n + if b then size else 0 := by
    cases b
    · exact hn
    · exact Nat.dvd_add hn hsize
  have hresident := h.resident
  have hpss_le := h.pss_le
  have hdirty_le := h.pssDirty_le
  unfold pageStats
  generalize k.folioTestAnon page = anon
  generalize k.folioTestSwapbacked page = swapbacked
  generalize (dirty || k.folioTestDirty page) = dirty
  constructor <;> dsimp only [HAdd.hAdd, Add.add] <;> simp only [Nat.add_eq]
  case pages =>
    exact ⟨hdvd _ h.pages.1, hdvd _ h.pages.2.1, hdvd _ h.pages.2.2.1, hdvd _ h.pages.2.2.2⟩
  case resident =>
    show s.resident = _
    cases dirty <;> cases isPrivate <;> simp <;> omega
  case pss =>
    have hpss := h.pss
    cases anon <;> cases swapbacked <;> simp <;> omega
  case pss_le => cases dirty <;> cases isPrivate <;> simp <;> omega
  case pssDirty_le => cases dirty <;> cases isPrivate <;> simp <;> omega
  case pssLocked_le =>
    have hlocked := h.pssLocked_le
    cases locked <;> simp <;> omega
  case le_resident => exact h.le_resident
  case lazyfree_le => exact h.lazyfree_le
  case private_le =>
    intro hk
    obtain ⟨hclean, hdirty⟩ := h.private_le hk
    cases isPrivate
    · cases dirty <;> simp <;> constructor <;> linarith
    · have hpss := hprivate hk rfl
      cases dirty <;> simp <;> constructor <;> linarith

/-- The share of a page is at most the page, and the page itself where it is exclusive. -/
theorem pageShare_le (head page : U64) :
    pageShare k head page ≤ pageSize * 2^12 ∧
      (k.pageMapcount = true → exclusive k head page = true →
        pageShare k head page = pageSize * 2^12) := by
  unfold pageShare exclusive
  refine ⟨?_, fun hk hexclusive => ?_⟩
  · split_ifs
    · exact Nat.div_le_self _ _
    · exact le_rfl
  · rw [if_pos hk, decide_eq_true_eq] at hexclusive
    rw [if_neg (not_le.mpr hexclusive)]
    rfl

/-- `smaps_account` keeps it. -/
theorem consistent_account (page : U64) (compound young dirty locked present : Bool)
    (h : Consistent k 0 s) :
    Consistent k 0 (account k page compound young dirty locked present s) := by
  rw [account_eq]
  generalize (if compound then k.compoundNr page else 1) = nr
  have hentry := consistent_entryStats page (nr * pageSize) young dirty h
  dsimp only
  split_ifs
  · exact consistent_pageStats page dirty locked present hentry (Nat.dvd_mul_left ..) le_rfl
      fun _ _ => rfl
  · -- the pages that the loop has not come to are counted as resident only
    have hloop (is : List ℕ) {s : Stats} (h : Consistent k (0 + is.length * pageSize) s) :
        Consistent k 0 (is.foldl (fun mss i =>
          mss + pageStats k page pageSize (pageShare k page (page + BitVec.ofNat 64 i)) dirty locked
            (exclusive k page (page + BitVec.ofNat 64 i))) s) := by
      induction is generalizing s with
      | nil => rwa [List.length_nil, Nat.zero_mul] at h
      | cons i is ih =>
        rw [List.length_cons, Nat.succ_mul, ← Nat.add_assoc] at h
        obtain ⟨hle, heq⟩ := pageShare_le (k := k) page (page + BitVec.ofNat 64 i)
        exact ih (consistent_pageStats page dirty locked _ h dvd_rfl hle heq)
    apply hloop
    rwa [List.length_range]

/-- The other counters do not matter. -/
theorem Consistent.frame (h : Consistent k d s) (anonymousThp shmemThp fileThp swap sharedHugetlb
    privateHugetlb swapPss : ℕ) :
    Consistent k d { s with
      anonymousThp := anonymousThp, shmemThp := shmemThp, fileThp := fileThp, swap := swap
      sharedHugetlb := sharedHugetlb, privateHugetlb := privateHugetlb, swapPss := swapPss } :=
  { h with }

/-- `smaps_pte_entry` keeps it. -/
theorem consistent_pteEntry (shmem : Bool) (vma : MapsVma) (page : ℕ) (pte : U64)
    (h : Consistent k 0 s) : Consistent k 0 (pteEntry k shmem vma page pte s) := by
  unfold pteEntry
  by_cases hpresent : ptePresent pte
  · simp only [hpresent, if_true]
    cases k.vmNormalPage vma page pte with
    | none => exact h
    | some p => exact consistent_account p _ _ _ _ _ h
  · simp only [hpresent, Bool.false_eq_true, if_false]
    split_ifs
    · exact h.frame ..
    · exact h
    · exact h.frame ..
    · exact h.frame ..
    · cases (k.softleaf pte).pfn with
      | none => exact h
      | some p => exact consistent_account p _ _ _ _ _ h

/-- `smaps_pmd_entry` keeps it. -/
theorem consistent_pmdEntry (vma : MapsVma) (pmd : U64) (h : Consistent k 0 s) :
    Consistent k 0 (pmdEntry k vma pmd s) := by
  unfold pmdEntry
  dsimp only
  split
  · exact h
  · apply consistent_account
    split_ifs
    · exact h.frame ..
    · exact h.frame ..
    · exact h
    · exact h.frame ..

/-- `smaps_hugetlb_range` keeps it. -/
theorem consistent_hugetlbRange (vma : MapsVma) (pte : U64) (shared : Bool)
    (h : Consistent k 0 s) : Consistent k 0 (hugetlbRange k vma pte shared s) := by
  unfold hugetlbRange
  dsimp only
  split
  · exact h
  · split_ifs
    · exact h.frame ..
    · exact h.frame ..

/-- A call keeps it. -/
theorem consistent_call (shmem : Bool) (vma : MapsVma) (c : Call) (h : Consistent k 0 s) :
    Consistent k 0 (call k shmem vma s c) := by
  cases c with
  | hole lo hi =>
    unfold call
    dsimp only
    split_ifs
    · exact h.frame ..
    · exact h
  | table vma' lo hi ptes =>
    exact List.foldlRecOn _ _ h fun s hs page _ => consistent_pteEntry shmem vma page (ptes page) hs
  | thp vma' lo hi pmd => exact consistent_pmdEntry vma pmd h
  | again => exact h
  | hugetlb vma' lo hi size pte shared => exact consistent_hugetlbRange vma pte shared h

/-- `smap_gather_stats` keeps it. -/
theorem consistent_gatherStats (vma : MapsVma) (start : ℕ) (calls : List Call)
    (h : Consistent k 0 s) : Consistent k 0 (gatherStats k vma start calls s) := by
  have hwalk (shmem : Bool) {s : Stats} (h : Consistent k 0 s) :
      Consistent k 0 (calls.foldl (call k shmem vma) s) :=
    List.foldlRecOn _ _ h fun s hs c _ => consistent_call shmem vma c hs
  unfold gatherStats
  dsimp only
  split_ifs
  · exact h
  · exact hwalk false (h.frame ..)
  · exact hwalk true h
  · exact hwalk false h

/-! ## What is printed -/

/-- The counters, as `__show_smap` prints them. -/
def memSizeStats (s : Stats) : MemSizeStats where
  resident := .ofNat 64 s.resident
  pss := .ofNat 64 s.pss
  pssDirty := .ofNat 64 s.pssDirty
  sharedClean := .ofNat 64 s.sharedClean
  sharedDirty := .ofNat 64 s.sharedDirty
  privateClean := .ofNat 64 s.privateClean
  privateDirty := .ofNat 64 s.privateDirty
  referenced := .ofNat 64 s.referenced
  anonymous := .ofNat 64 s.anonymous
  ksm := .ofNat 64 s.ksm
  lazyfree := .ofNat 64 s.lazyfree
  anonymousThp := .ofNat 64 s.anonymousThp
  shmemThp := .ofNat 64 s.shmemThp
  fileThp := .ofNat 64 s.fileThp
  sharedHugetlb := .ofNat 64 s.sharedHugetlb
  privateHugetlb := .ofNat 64 s.privateHugetlb
  swap := .ofNat 64 s.swap
  swapPss := .ofNat 64 s.swapPss
  pssLocked := .ofNat 64 s.pssLocked

/-- The number of kilobytes that `SEQ_PUT_DEC` prints. -/
def kilobytes (val : U64) : ℕ := (val >>> 10).toNat

/-- The number that is printed of a counter. -/
theorem kilobytes_ofNat {n : ℕ} (h : n < 2^64) : kilobytes (.ofNat 64 n) = n / 2^10 := by
  rw [kilobytes, BitVec.toNat_ushiftRight, BitVec.toNat_ofNat, Nat.mod_eq_of_lt h,
    Nat.shiftRight_eq_div_pow]

/-- The number that is printed of a share. -/
theorem kilobytes_ofNat_shift {n : ℕ} (h : n < 2^64) :
    kilobytes ((.ofNat 64 n : U64) >>> 12) = n / 2^12 / 2^10 := by
  rw [kilobytes, BitVec.toNat_ushiftRight, BitVec.toNat_ushiftRight, BitVec.toNat_ofNat,
    Nat.mod_eq_of_lt h, Nat.shiftRight_eq_div_pow, Nat.shiftRight_eq_div_pow]

/-- The numbers that are printed of consistent counters agree: what is shared and private, clean and
dirty, is together what is resident, and no part is more than the whole. -/
theorem kilobytes_memSizeStats (h : Consistent k 0 s) (hfits : s.resident < 2^52) :
    let m := memSizeStats s
    kilobytes m.resident = kilobytes m.sharedClean + kilobytes m.sharedDirty +
        kilobytes m.privateClean + kilobytes m.privateDirty ∧
      kilobytes (m.pss >>> 12) ≤ kilobytes m.resident ∧
      kilobytes (m.pssDirty >>> 12) ≤ kilobytes (m.pss >>> 12) ∧
      kilobytes (m.pssDirty >>> 12) ≤ kilobytes m.sharedDirty + kilobytes m.privateDirty ∧
      kilobytes (m.pssLocked >>> 12) ≤ kilobytes (m.pss >>> 12) ∧
      kilobytes m.referenced ≤ kilobytes m.resident ∧
      kilobytes m.ksm ≤ kilobytes m.resident ∧
      kilobytes m.lazyfree ≤ kilobytes m.anonymous ∧
      kilobytes m.anonymous ≤ kilobytes m.resident ∧
      (k.pageMapcount = true →
        kilobytes m.privateClean + kilobytes m.privateDirty ≤ kilobytes (m.pss >>> 12)) := by
  obtain ⟨⟨a, ha⟩, ⟨b, hb⟩, ⟨c, hc⟩, ⟨e, he⟩⟩ := h.pages
  obtain ⟨href, hanon, hksm⟩ := h.le_resident
  have hresident := h.resident
  have hpss_le := h.pss_le
  have hdirty_le := h.pssDirty_le
  have hlocked_le := h.pssLocked_le
  have hlazy_le := h.lazyfree_le
  rw [pageSize] at ha hb hc he
  rw [Nat.add_zero] at hresident
  rw [← hresident] at hpss_le
  have hpss : s.pss < 2^64 := by omega
  have hkilobytes {m n : ℕ} (hle : m ≤ n) : m / 2^10 ≤ n / 2^10 := Nat.div_le_div_right hle
  have hbytes {m n : ℕ} (hle : m ≤ n * 2^12) : m / 2^12 ≤ n :=
    Nat.div_le_of_le_mul (hle.trans_eq (Nat.mul_comm ..))
  have hshares {m n : ℕ} (hle : m ≤ n) : m / 2^12 / 2^10 ≤ n / 2^12 / 2^10 :=
    hkilobytes (Nat.div_le_div_right hle)
  dsimp only [memSizeStats]
  rw [kilobytes_ofNat_shift hpss, kilobytes_ofNat_shift (hdirty_le.1.trans_lt hpss),
    kilobytes_ofNat_shift (hlocked_le.trans_lt hpss)]
  simp (disch := omega) only [kilobytes_ofNat]
  refine ⟨by omega, hkilobytes (hbytes hpss_le), hshares hdirty_le.1, ?_, hshares hlocked_le,
    hkilobytes href, hkilobytes hksm, hkilobytes hlazy_le, hkilobytes hanon, fun hk => ?_⟩
  · calc s.pssDirty / 2^12 / 2^10
        ≤ (s.sharedDirty + s.privateDirty) / 2^10 := hkilobytes (hbytes hdirty_le.2)
      _ = s.sharedDirty / 2^10 + s.privateDirty / 2^10 := by omega
  · calc s.privateClean / 2^10 + s.privateDirty / 2^10
        = (s.privateClean + s.privateDirty) * 2^12 / 2^12 / 2^10 := by
          rw [Nat.mul_div_cancel _ (by decide)]
          omega
      _ ≤ s.pss / 2^12 / 2^10 := hshares (h.private_le hk).1

/-- Pages of which each is mapped twice. -/
def demoFacts : SmapsFacts where
  toPageFacts :=
    { PagemapRead.demoFacts with
      vmNormalPage := fun _ _ pte => some (ptePfn pte)
      precisePageMapcount := fun _ => 2 }
  folioTestSwapbacked _ := true
  folioTestDirty _ := false
  folioTestKsm _ := false
  folioTestYoung _ := false
  folioTestReferenced _ := false
  folioIsZoneDevice _ := false
  folioRefCount _ := 2
  averagePageMapcount _ := 2
  compoundNr _ := 1
  softleafIsSwap _ := false
  softleafIsDevicePrivate _ := false
  swpSwapcount _ := 0
  vmNormalPagePmd _ _ := none
  hugePageSize _ := 0
  shmemMapping _ := false
  shmemSwapUsage _ := 0
  shmemPartialSwapUsage _ _ _ := 0

/-- The walk over a page, which is in the frame 5. -/
def demoCalls (page : ℕ) : List Call :=
  [.table (MapsSeq.demoVma (.ofNat 64 (4096 * page))) page (page + 1) fun _ => 0x5067]

/-- `smap_gather_stats` for one VMA after another: the VMA, the start, and the calls of the walk. -/
def gatherAll (k : SmapsFacts) (gathers : List (MapsVma × ℕ × List Call)) (s : Stats) : Stats :=
  gathers.foldl (fun s g => gatherStats k g.1 g.2.1 g.2.2 s) s

/-- In a block of `smaps`, and in `smaps_rollup`, the numbers agree. -/
theorem kilobytes_gatherAll (gathers : List (MapsVma × ℕ × List Call))
    (hfits : (gatherAll k gathers 0).resident < 2^52) :
    let m := memSizeStats (gatherAll k gathers 0)
    kilobytes m.resident = kilobytes m.sharedClean + kilobytes m.sharedDirty +
        kilobytes m.privateClean + kilobytes m.privateDirty ∧
      kilobytes (m.pss >>> 12) ≤ kilobytes m.resident ∧
      kilobytes (m.pssDirty >>> 12) ≤ kilobytes (m.pss >>> 12) ∧
      kilobytes (m.pssDirty >>> 12) ≤ kilobytes m.sharedDirty + kilobytes m.privateDirty ∧
      kilobytes (m.pssLocked >>> 12) ≤ kilobytes (m.pss >>> 12) ∧
      kilobytes m.referenced ≤ kilobytes m.resident ∧
      kilobytes m.ksm ≤ kilobytes m.resident ∧
      kilobytes m.lazyfree ≤ kilobytes m.anonymous ∧
      kilobytes m.anonymous ≤ kilobytes m.resident ∧
      (k.pageMapcount = true →
        kilobytes m.privateClean + kilobytes m.privateDirty ≤ kilobytes (m.pss >>> 12)) := by
  apply kilobytes_memSizeStats _ hfits
  exact List.foldlRecOn _ _ consistent_zero fun s hs g _ =>
    consistent_gatherStats g.1 g.2.1 g.2.2 hs

/-- `kilobytes_gatherAll`, for a page that another process maps too. -/
theorem kilobytes_gatherAll_demo :
    let m := memSizeStats (gatherAll demoFacts [(MapsSeq.demoVma 0x1000, 0, demoCalls 1)] 0)
    kilobytes m.resident = kilobytes m.sharedClean + kilobytes m.sharedDirty +
        kilobytes m.privateClean + kilobytes m.privateDirty ∧
      kilobytes (m.pss >>> 12) ≤ kilobytes m.resident ∧
      kilobytes (m.pssDirty >>> 12) ≤ kilobytes (m.pss >>> 12) ∧
      kilobytes (m.pssDirty >>> 12) ≤ kilobytes m.sharedDirty + kilobytes m.privateDirty ∧
      kilobytes (m.pssLocked >>> 12) ≤ kilobytes (m.pss >>> 12) ∧
      kilobytes m.referenced ≤ kilobytes m.resident ∧
      kilobytes m.ksm ≤ kilobytes m.resident ∧
      kilobytes m.lazyfree ≤ kilobytes m.anonymous ∧
      kilobytes m.anonymous ≤ kilobytes m.resident ∧
      (demoFacts.pageMapcount = true →
        kilobytes m.privateClean + kilobytes m.privateDirty ≤ kilobytes (m.pss >>> 12)) :=
  kilobytes_gatherAll [(MapsSeq.demoVma 0x1000, 0, demoCalls 1)] (by decide)

/-! ## The shares of a page -/

section Shares

open Tally

variable (k)

/-- The pages that an entry maps: how many there are from the first one on. -/
structure Mapped where
  first : U64
  count : ℕ

/-- The pages. -/
def Mapped.pages (m : Mapped) : List U64 :=
  (List.range m.count).map fun i => m.first + BitVec.ofNat 64 i

/-- What a page-table entry maps. -/
def mappedByPte (vma : MapsVma) (page : ℕ) (pte : U64) : Option Mapped :=
  if ptePresent pte then (k.vmNormalPage vma page pte).map fun p => ⟨p, 1⟩ else none

/-- What the entry of a huge page maps. -/
def mappedByPmd (vma : MapsVma) (pmd : U64) : Option Mapped :=
  if !pmdNone pmd && pmdPresent pmd then
    (k.vmNormalPagePmd vma pmd).map fun p => ⟨p, k.compoundNr p⟩
  else none

/-- What is mapped where a call comes to. -/
def mappedByCall (vma : MapsVma) : Call → List Mapped
  | .table _ lo hi ptes =>
    (List.range' lo (hi - lo)).flatMap fun page => (mappedByPte k vma page (ptes page)).toList
  | .thp _ _ _ pmd => (mappedByPmd k vma pmd).toList
  | _ => []

/-- What is mapped in address spaces, whose VMAs and walks these are. -/
def mappedBy (walks : List (MapsVma × List Call)) : List Mapped :=
  walks.flatMap fun w => w.2.flatMap (mappedByCall k w.1)

/-- No entry that is not present stands for a page: none is being migrated, in the memory of a
device, or poisoned. -/
def Settled : Call → Prop
  | .table _ lo hi ptes => ∀ page ∈ List.range' lo (hi - lo),
    ptePresent (ptes page) ∨ pteNone (ptes page) ∨ k.softleafIsSwap (ptes page) ∨
      (k.softleaf (ptes page)).pfn = none
  | .thp _ _ _ pmd => pmdNone pmd ∨ pmdPresent pmd ∨ k.thpMigrationSupported = false ∨
      (k.softleaf pmd).pfn = none
  | _ => True

/-- The map counts are right for what is mapped in all address spaces, and a folio with one
reference is mapped once. -/
structure MapcountsRight (ms : List Mapped) : Prop where
  mapcount : ∀ page ∈ ms.flatMap Mapped.pages,
    k.precisePageMapcount page = (ms.flatMap Mapped.pages).count page
  once : ∀ m ∈ ms, k.folioRefCount m.first = 1 →
    ∀ page ∈ m.pages, (ms.flatMap Mapped.pages).count page = 1

/-- What the shares of some pages are together, of the pages that are mapped in `all`. -/
def shares (all pages : List U64) : ℕ := (pages.map fun page => pagePss / all.count page).sum

variable {k} {ms : List Mapped}

/-- What a loop of steps that add counts in `pss`. -/
theorem pss_foldl {ι : Type} {f : Stats → ι → Stats} {xs : List ι}
    (h : ∀ x ∈ xs, Adds fun s => f s x) (s : Stats) :
    (xs.foldl f s).pss = s.pss + (xs.map fun x => (f 0 x).pss).sum := by
  rw [foldl_eq_sum h, Stats.pss_add]
  congr 1
  induction xs with
  | nil => rfl
  | cons x xs ih =>
    rw [List.map_cons, List.sum_cons, List.map_cons, List.sum_cons, Stats.pss_add,
      ih fun y hy => h y (List.mem_cons_of_mem _ hy)]

/-- The shares of groups of pages. -/
theorem shares_flatMap {ι : Type} (all : List U64) (xs : List ι) (g : ι → List U64) :
    shares all (xs.flatMap g) = (xs.map fun x => shares all (g x)).sum := by
  induction xs with
  | nil => rfl
  | cons x xs ih =>
    rw [List.flatMap_cons, List.map_cons, List.sum_cons, ← ih, shares, List.map_append,
      List.sum_append]
    rfl

/-- The share of a page that is mapped. -/
theorem pageShare_eq (hk : k.pageMapcount = true) (hright : MapcountsRight k ms) (head : U64)
    {page : U64} (hmem : page ∈ ms.flatMap Mapped.pages) :
    pageShare k head page = pagePss / (ms.flatMap Mapped.pages).count page := by
  have hpos := List.count_pos_iff.mpr hmem
  rw [pageShare, mapcount, if_pos hk, hright.mapcount page hmem, Int.toNat_natCast]
  by_cases htwo : (2 : ℤ) ≤ (ms.flatMap Mapped.pages).count page
  · rw [if_pos htwo]
  · have hone : (ms.flatMap Mapped.pages).count page = 1 := by omega
    rw [if_neg htwo, hone, Nat.div_one]

/-- `smaps_account` counts the shares of the pages that the entry maps. -/
theorem pss_account (hk : k.pageMapcount = true) (hright : MapcountsRight k ms) {page : U64}
    {compound : Bool} (young dirty locked : Bool) {m : Mapped} (hmem : m ∈ ms)
    (hm : m = ⟨page, if compound then k.compoundNr page else 1⟩) :
    (account k page compound young dirty locked true 0).pss =
      shares (ms.flatMap Mapped.pages) m.pages := by
  have hpages : ∀ q ∈ m.pages, q ∈ ms.flatMap Mapped.pages := fun q hq =>
    List.mem_flatMap.mpr ⟨m, hmem, hq⟩
  rw [account_eq]
  generalize (if compound then k.compoundNr page else 1) = nr at hm
  subst hm
  by_cases h : k.folioRefCount page = 1
  · -- each page is mapped once
    have hshare : ∀ q ∈ (Mapped.mk page nr).pages,
        pagePss / (ms.flatMap Mapped.pages).count q = pagePss := by
      intro q hq
      rw [hright.once _ hmem h q hq, Nat.div_one]
    rw [if_pos (.inl h), shares, List.map_congr_left hshare, List.map_const', List.sum_replicate,
      Mapped.pages, List.length_map, List.length_range, nsmul_eq_mul]
    show 0 + 0 + nr * pageSize * 2^12 = nr * (pageSize * 2^12)
    rw [Nat.zero_add, Nat.mul_assoc]
  · rw [if_neg (by simpa using h), pss_foldl fun _ _ => .of_eq fun _ => rfl]
    show 0 + (List.map _ _).sum = _
    rw [Nat.zero_add, shares, Mapped.pages, List.map_map]
    congr 1
    apply List.map_congr_left
    intro i hi
    show 0 + pageShare k page (page + BitVec.ofNat 64 i) = _
    rw [Nat.zero_add]
    exact pageShare_eq hk hright page (hpages _ (List.mem_map_of_mem hi))

/-- `smaps_pte_entry` counts the share of what the entry maps. -/
theorem pss_pteEntry (hk : k.pageMapcount = true) (hright : MapcountsRight k ms) (shmem : Bool)
    (vma : MapsVma) (page : ℕ) (pte : U64) (hmem : ∀ m ∈ mappedByPte k vma page pte, m ∈ ms)
    (hsettled : ptePresent pte ∨ pteNone pte ∨ k.softleafIsSwap pte ∨ (k.softleaf pte).pfn = none) :
    (pteEntry k shmem vma page pte 0).pss =
      shares (ms.flatMap Mapped.pages)
        ((mappedByPte k vma page pte).toList.flatMap Mapped.pages) := by
  unfold pteEntry mappedByPte at *
  by_cases hpresent : ptePresent pte
  · rw [if_pos hpresent] at hmem ⊢
    rw [if_pos hpresent]
    cases hp : k.vmNormalPage vma page pte with
    | none => rfl
    | some p =>
      rw [hp] at hmem
      have hm := hmem ⟨p, 1⟩ rfl
      simp only [Option.map_some, Option.toList_some, List.flatMap_singleton]
      exact pss_account hk hright _ _ _ hm rfl
  · rw [if_neg hpresent, if_neg hpresent]
    by_cases hnone : pteNone pte
    · rw [if_pos hnone]
      cases shmem <;> rfl
    · rw [if_neg hnone]
      by_cases hswap : k.softleafIsSwap pte
      · rw [if_pos hswap]
        rfl
      · have hpfn : (k.softleaf pte).pfn = none :=
          ((hsettled.resolve_left hpresent).resolve_left hnone).resolve_left hswap
        rw [if_neg hswap, hpfn]
        rfl

/-- `smaps_pmd_entry` counts the shares of what the entry maps. -/
theorem pss_pmdEntry (hk : k.pageMapcount = true) (hright : MapcountsRight k ms) (vma : MapsVma)
    (pmd : U64) (hmem : ∀ m ∈ mappedByPmd k vma pmd, m ∈ ms)
    (hsettled : pmdNone pmd ∨ pmdPresent pmd ∨ k.thpMigrationSupported = false ∨
      (k.softleaf pmd).pfn = none) :
    (pmdEntry k vma pmd 0).pss =
      shares (ms.flatMap Mapped.pages) ((mappedByPmd k vma pmd).toList.flatMap Mapped.pages) := by
  unfold pmdEntry mappedByPmd at *
  by_cases hnone : pmdNone pmd
  · simp only [hnone, if_true, Bool.not_true, Bool.false_and, Bool.false_eq_true, if_false]
    rfl
  · by_cases hpresent : pmdPresent pmd
    · simp only [hnone, hpresent, Bool.not_false, Bool.and_self, if_true, Bool.false_eq_true,
        if_false] at hmem ⊢
      cases hp : k.vmNormalPagePmd vma pmd with
      | none => rfl
      | some p =>
        rw [hp] at hmem
        have hm := hmem ⟨p, k.compoundNr p⟩ rfl
        simp only [Option.map_some, Option.toList_some, List.flatMap_singleton]
        have hadds := adds_account (k := k) p true (pmdYoung pmd) (pmdDirty pmd)
          (vma.vmFlags &&& vmLocked != 0) true
        rw [hadds, Stats.pss_add, pss_account hk hright _ _ _ hm rfl]
        split_ifs <;> exact Nat.zero_add _
    · have hpage : (if k.thpMigrationSupported then (k.softleaf pmd).pfn else none) = none := by
        rcases (hsettled.resolve_left hnone).resolve_left hpresent with hoff | hpfn
        · rw [hoff]
          rfl
        · rw [hpfn, ite_self]
      simp only [hnone, hpresent, Bool.not_false, Bool.and_false, Bool.false_eq_true, if_false,
        hpage]
      rfl

/-- A call counts the shares of what is mapped there. -/
theorem pss_call (hk : k.pageMapcount = true) (hright : MapcountsRight k ms) (shmem : Bool)
    (vma : MapsVma) (c : Call) (hmem : ∀ m ∈ mappedByCall k vma c, m ∈ ms)
    (hsettled : Settled k c) :
    (call k shmem vma 0 c).pss =
      shares (ms.flatMap Mapped.pages) ((mappedByCall k vma c).flatMap Mapped.pages) := by
  cases c with
  | hole lo hi => cases shmem <;> rfl
  | table vma' lo hi ptes =>
    have hentry : ∀ page ∈ List.range' lo (hi - lo), (pteEntry k shmem vma page (ptes page) 0).pss =
        shares (ms.flatMap Mapped.pages)
          ((mappedByPte k vma page (ptes page)).toList.flatMap Mapped.pages) := by
      intro page hpage
      apply pss_pteEntry hk hright shmem vma page _ _ (hsettled page hpage)
      intro m hm
      exact hmem m (List.mem_flatMap.mpr ⟨page, hpage, Option.mem_toList.mpr hm⟩)
    unfold call mappedByCall
    dsimp only
    rw [pss_foldl fun page _ => adds_pteEntry shmem vma page (ptes page), List.flatMap_assoc,
      shares_flatMap, List.map_congr_left hentry, Stats.pss_zero, Nat.zero_add]
  | thp vma' lo hi pmd =>
    exact pss_pmdEntry hk hright vma pmd (fun m hm => hmem m (Option.mem_toList.mpr hm)) hsettled
  | again => rfl
  | hugetlb vma' lo hi size pte shared =>
    show (hugetlbRange k vma pte shared 0).pss = 0
    unfold hugetlbRange
    dsimp only
    split
    · rfl
    · split_ifs <;> rfl

/-- A walk counts the shares of what is mapped in its VMA. -/
theorem pss_gatherStats (hk : k.pageMapcount = true) (hright : MapcountsRight k ms) {vma : MapsVma}
    {calls : List Call} (hvma : 0 < vma.hi) (hmem : ∀ c ∈ calls, ∀ m ∈ mappedByCall k vma c, m ∈ ms)
    (hsettled : ∀ c ∈ calls, Settled k c) :
    (gatherStats k vma 0 calls 0).pss =
      shares (ms.flatMap Mapped.pages)
        ((calls.flatMap (mappedByCall k vma)).flatMap Mapped.pages) := by
  have hwalk (shmem : Bool) {s : Stats} (hs : s.pss = 0) : (calls.foldl (call k shmem vma) s).pss =
      shares (ms.flatMap Mapped.pages)
        ((calls.flatMap (mappedByCall k vma)).flatMap Mapped.pages) := by
    have hcall : ∀ c ∈ calls, (call k shmem vma 0 c).pss =
        shares (ms.flatMap Mapped.pages) ((mappedByCall k vma c).flatMap Mapped.pages) :=
      fun c hc => pss_call hk hright shmem vma c (hmem c hc) (hsettled c hc)
    rw [pss_foldl fun c _ => adds_call shmem vma c, hs, Nat.zero_add, List.flatMap_assoc,
      shares_flatMap, List.map_congr_left hcall]
  unfold gatherStats
  rw [if_neg (not_le.mpr hvma)]
  dsimp only
  split_ifs
  · exact hwalk false rfl
  · exact hwalk true rfl
  · exact hwalk false rfl

/-- The proportional shares of all blocks of `smaps` together are the pages that are mapped, each of
them once, but for at most a unit for each mapping of a page beyond the first. -/
theorem pss_total {walks : List (MapsVma × List Call)} (hk : k.pageMapcount = true)
    (hvma : ∀ w ∈ walks, 0 < w.1.hi) (hsettled : ∀ w ∈ walks, ∀ c ∈ w.2, Settled k c)
    (hright : MapcountsRight k (mappedBy k walks)) :
    let total := (walks.map fun w => (gatherStats k w.1 0 w.2 0).pss).sum
    let pages := (mappedBy k walks).flatMap Mapped.pages
    total ≤ pages.toFinset.card * pagePss ∧
      pages.toFinset.card * pagePss + pages.toFinset.card ≤ total + pages.length := by
  have hgather : ∀ w ∈ walks, (gatherStats k w.1 0 w.2 0).pss =
      shares ((mappedBy k walks).flatMap Mapped.pages)
        ((w.2.flatMap (mappedByCall k w.1)).flatMap Mapped.pages) := by
    intro w hw
    apply pss_gatherStats hk hright (hvma w hw) _ (hsettled w hw)
    intro c hc m hm
    exact List.mem_flatMap.mpr ⟨w, hw, List.mem_flatMap.mpr ⟨c, hc, hm⟩⟩
  have htotal : (walks.map fun w => (gatherStats k w.1 0 w.2 0).pss).sum =
      shares ((mappedBy k walks).flatMap Mapped.pages)
        ((mappedBy k walks).flatMap Mapped.pages) := by
    rw [List.map_congr_left hgather, ← shares_flatMap, mappedBy, List.flatMap_assoc]
  dsimp only
  rw [htotal]
  exact ⟨sum_shares_le pagePss _, le_sum_shares pagePss _⟩

/-- Two processes that map a page. -/
def demoWalks : List (MapsVma × List Call) :=
  [(MapsSeq.demoVma 0x1000, demoCalls 1), (MapsSeq.demoVma 0x3000, demoCalls 3)]

/-- The page is mapped twice. -/
theorem demoWalks_mapcountsRight : MapcountsRight demoFacts (mappedBy demoFacts demoWalks) := by
  have hpte (vma : MapsVma) (page : ℕ) : mappedByPte demoFacts vma page 0x5067 = some ⟨5, 1⟩ := by
    have hpfn : ptePfn 0x5067 = 5 := by decide
    rw [mappedByPte, if_pos (by decide)]
    exact congrArg (fun p => some (Mapped.mk p 1)) hpfn
  have hmapped : mappedBy demoFacts demoWalks = [⟨5, 1⟩, ⟨5, 1⟩] := by
    simp only [mappedBy, demoWalks, demoCalls, mappedByCall, List.flatMap_cons, List.flatMap_nil,
      Nat.add_sub_cancel_left, List.range'_one, hpte]
    rfl
  have hpages : ([⟨5, 1⟩, ⟨5, 1⟩] : List Mapped).flatMap Mapped.pages = [5, 5] := rfl
  rw [hmapped]
  constructor
  · rw [hpages]
    intro page hpage
    have hfive : page = 5 := by simpa using hpage
    rw [hfive]
    rfl
  · intro m _ hone
    have htwo : demoFacts.folioRefCount m.first = 2 := rfl
    omega

/-- `pss_total`, for a page that two processes map. -/
theorem pss_total_demo :
    let total := (demoWalks.map fun w => (gatherStats demoFacts w.1 0 w.2 0).pss).sum
    let pages := (mappedBy demoFacts demoWalks).flatMap Mapped.pages
    total ≤ pages.toFinset.card * pagePss ∧
      pages.toFinset.card * pagePss + pages.toFinset.card ≤ total + pages.length := by
  have hcalls (page : ℕ) : ∀ c ∈ demoCalls page, Settled demoFacts c := by
    intro c hc
    rw [List.mem_singleton.mp hc]
    have hpresent : ptePresent 0x5067 = true := by decide
    exact fun _ _ => .inl hpresent
  refine pss_total rfl (by decide) ?_ demoWalks_mapcountsRight
  intro w hw
  rcases List.mem_pair.mp hw with rfl | rfl
  · exact hcalls 1
  · exact hcalls 3

end Shares

end Smaps

end KernelPortfolio
