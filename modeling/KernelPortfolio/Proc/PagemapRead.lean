import KernelPortfolio.Headers.SoftBits
import KernelPortfolio.Lib.Bounded
import KernelPortfolio.Proc.MapsSeq

/-!
# How `/proc/PID/pagemap` is read

`pagemap_read` makes one 64-bit word for each page, in pieces of at most 512 pages: a walk over the
page tables calls back for what it meets, and the callbacks add words to a buffer. Addresses within
a piece are counted in pages, since all of them are multiples of a page below `task_size`.

The walk, `mm/pagewalk.c`, and what the kernel knows of a page, `PageFacts`, are not part of the
repository. `Walks` is what is known of the walk: it calls back for the range from its start to its
end, for each part with what it meets there. A VMA with `VM_PFNMAP` is a hole for it, whatever is
mapped, so that the words of its pages are those of pages that are not present.
-/

namespace KernelPortfolio

open Bounded (Writer Puts andThen inTurn put skip)

/-- A swap or migration entry, a `softleaf_t`. -/
structure Softleaf where
  /-- `swp_type`. -/
  type : BitVec 5
  /-- `swp_offset`. -/
  offset : U64
  /-- `softleaf_to_pfn`, if `softleaf_has_pfn`. -/
  pfn : Option U64
  /-- `softleaf_is_uffd_wp_marker`. -/
  uffdWpMarker : Bool
  /-- `softleaf_is_guard_marker`. -/
  guardMarker : Bool

/-- What the kernel knows of the pages. A `struct page` is given by its page frame number. -/
structure PageFacts where
  /-- `vm_normal_page`. -/
  vmNormalPage : (vma : MapsVma) → (page : ℕ) → (pte : U64) → Option U64
  /-- `folio_test_anon`, of the folio of a page. -/
  folioTestAnon : U64 → Bool
  /-- `CONFIG_PAGE_MAPCOUNT`. -/
  pageMapcount : Bool
  /-- `folio_precise_page_mapcount`. -/
  precisePageMapcount : U64 → ℤ
  /-- `folio_maybe_mapped_shared`, of the folio of a page. -/
  maybeMappedShared : U64 → Bool
  /-- `thp_migration_supported`. -/
  thpMigrationSupported : Bool
  /-- `softleaf_from_pte` and `softleaf_from_pmd`. -/
  softleaf : U64 → Softleaf
  /-- `huge_pte_uffd_wp`. -/
  hugePteUffdWp : U64 → Bool
  /-- `pte_swp_uffd_wp_any`. -/
  pteSwpUffdWpAny : U64 → Bool

/-- `VM_SOFTDIRTY`. -/
def vmSoftdirty : BitVec 64 := .twoPow 64 27

/-- `VM_PFNMAP`. -/
def vmPfnmap : BitVec 64 := .twoPow 64 10

namespace PagemapRead

/-! ## The words -/

/-- `PM_PFRAME_MASK`. -/
def pmPframeMask : U64 := BitField.field 64 0 55

/-- `PM_SOFT_DIRTY`. -/
def pmSoftDirty : U64 := .twoPow 64 55

/-- `PM_MMAP_EXCLUSIVE`. -/
def pmMmapExclusive : U64 := .twoPow 64 56

/-- `PM_UFFD_WP`. -/
def pmUffdWp : U64 := .twoPow 64 57

/-- `PM_GUARD_REGION`. -/
def pmGuardRegion : U64 := .twoPow 64 58

/-- `PM_FILE`. -/
def pmFile : U64 := .twoPow 64 61

/-- `PM_SWAP`. -/
def pmSwap : U64 := .twoPow 64 62

/-- `PM_PRESENT`. -/
def pmPresent : U64 := .twoPow 64 63

/-- `make_pme`. -/
def makePme (frame flags : U64) : U64 := (frame &&& pmPframeMask) ||| flags

/-- `if (b) flags |= flag`, as what is added to the flags. -/
def flagIf (b : Bool) (flag : U64) : U64 := if b then flag else 0

/-- The flag of a VMA that is soft-dirty as a whole. -/
def vmaFlags (vma : MapsVma) : U64 := flagIf (vma.vmFlags &&& vmSoftdirty != 0) pmSoftDirty

variable (k : PageFacts)

/-- `__folio_page_mapped_exclusively`. -/
def folioPageMappedExclusively (page : U64) : Bool :=
  if k.pageMapcount then k.precisePageMapcount page == 1 else !k.maybeMappedShared page

/-- The flags that the folio of a page adds. -/
def folioFlags (present : Bool) : Option U64 → U64
  | none => 0
  | some page =>
    flagIf (!k.folioTestAnon page) pmFile |||
      flagIf (present && folioPageMappedExclusively k page) pmMmapExclusive

/-- The frame of a swap entry, `i` pages behind its first one: the type, and the offset above
`MAX_SWAPFILES_SHIFT`. -/
def swapFrame (offset : U64) (entry : Softleaf) (i : ℕ) : U64 :=
  entry.type.setWidth 64 ||| (offset + BitVec.ofNat 64 i) <<< 5

/-- `pte_to_pagemap_entry`. -/
def pteToPagemapEntry (showPfn : Bool) (vma : MapsVma) (page : ℕ) (pte : U64) : U64 :=
  if pteNone pte then makePme 0 (vmaFlags vma)
  else if ptePresent pte then
    makePme (if showPfn then ptePfn pte else 0)
      (pmPresent ||| flagIf (pteSoftDirty pte) pmSoftDirty ||| flagIf (pteUffdWp pte) pmUffdWp |||
        folioFlags k true (k.vmNormalPage vma page pte) ||| vmaFlags vma)
  else
    let entry := k.softleaf pte
    let offset := entry.pfn.getD entry.offset
    makePme (if showPfn then swapFrame offset entry 0 else 0)
      (flagIf (pteSwpSoftDirty pte) pmSoftDirty ||| flagIf (pteSwpUffdWp pte) pmUffdWp |||
        pmSwap ||| flagIf entry.uffdWpMarker pmUffdWp ||| flagIf entry.guardMarker pmGuardRegion |||
        folioFlags k false entry.pfn ||| vmaFlags vma)

/-- What is known of a huge page: the flags of its pages, the frame of the page `i` of it, and by
how much the frame grows from page to page. -/
structure Huge where
  flags : U64
  frame : ℕ → U64
  step : U64

/-- `pagemap_pmd_range_thp`, up to `populate_pagemap`. -/
def thpOf (showPfn : Bool) (vma : MapsVma) (pmd : U64) : Huge :=
  if pmdNone pmd then ⟨vmaFlags vma, fun _ => 0, 0⟩
  else if pmdPresent pmd then
    { flags := vmaFlags vma ||| pmPresent ||| flagIf (pmdSoftDirty pmd) pmSoftDirty |||
        flagIf (pmdUffdWp pmd) pmUffdWp ||| folioFlags k true (some (pmdPfn pmd))
      frame := fun idx => if showPfn then pmdPfn pmd + BitVec.ofNat 64 idx else 0
      step := if showPfn then 1 else 0 }
  else if k.thpMigrationSupported then
    let entry := k.softleaf pmd
    let offset := entry.pfn.getD entry.offset
    { flags := vmaFlags vma ||| pmSwap ||| flagIf (pmdSwpSoftDirty pmd) pmSoftDirty |||
        flagIf (pmdSwpUffdWp pmd) pmUffdWp ||| folioFlags k false entry.pfn
      frame := fun idx => if showPfn then swapFrame offset entry idx else 0
      step := if showPfn then (1 : U64) <<< 5 else 0 }
  else ⟨vmaFlags vma, fun _ => 0, 0⟩

/-- `pagemap_hugetlb_range`, up to its loop. `shared` is `hugetlb_pmd_shared`. -/
def hugetlbOf (showPfn : Bool) (vma : MapsVma) (pte : U64) (shared : Bool) : Huge :=
  if ptePresent pte then
    { flags := vmaFlags vma ||| flagIf (!k.folioTestAnon (ptePfn pte)) pmFile |||
        flagIf (!k.maybeMappedShared (ptePfn pte) && !shared) pmMmapExclusive |||
        flagIf (k.hugePteUffdWp pte) pmUffdWp ||| pmPresent
      frame := fun i => if showPfn then ptePfn pte + BitVec.ofNat 64 i else 0
      step := if showPfn then 1 else 0 }
  else ⟨vmaFlags vma ||| flagIf (k.pteSwpUffdWpAny pte) pmUffdWp, fun _ => 0, 0⟩

/-! ## The buffer -/

/-- `pm.len`. -/
def pmLen : ℕ := 512

/-- `add_to_pagemap`. -/
def addToPagemap (pme : U64) : Writer U64 := put pmLen pme

/-- A word for each page from `lo` to `hi`. -/
def forPages (lo hi : ℕ) (pme : ℕ → U64) : Writer U64 :=
  inTurn ((List.range' lo (hi - lo)).map fun page => addToPagemap (pme page))

/-- The loops over the pages of a huge page, which carry the frame along. -/
def populate (flags step : U64) : ℕ → U64 → Writer U64
  | 0, _ => skip
  | n + 1, frame =>
    andThen (addToPagemap (makePme frame flags)) (populate flags step n (frame + step))

/-- The page that an address is in. -/
def pageOf (addr : ℕ) : ℕ := addr / 4096

/-- `pagemap_pte_hole`, from the page `page` to `hi`. The loop takes a VMA at a time, and so no more
rounds than there are pages. -/
def pagemapPteHole (mm : MmStruct) (hi : ℕ) : ℕ → ℕ → Writer U64
  | 0, _ => skip
  | rounds + 1, page =>
    if hi ≤ page then skip
    else
      match mm.findVma (BitVec.ofNat 64 (4096 * page)) with
      | none => forPages page hi fun _ => makePme 0 0
      | some vma =>
        let holeEnd := min hi (pageOf vma.lo)
        let vmaEnd := min hi (pageOf vma.hi)
        andThen (forPages page holeEnd fun _ => makePme 0 0)
          (andThen (forPages (max page holeEnd) vmaEnd fun _ => makePme 0 (vmaFlags vma))
            (pagemapPteHole mm hi rounds (max (max page holeEnd) vmaEnd)))

/-- A call of one of the `pagemap_ops`, for the pages from `lo` to `hi`. -/
inductive Call where
  /-- `pagemap_pte_hole`. -/
  | hole (lo hi : ℕ)
  /-- `pagemap_pmd_range`, which finds a page table. -/
  | table (vma : MapsVma) (lo hi : ℕ) (ptes : ℕ → U64)
  /-- `pagemap_pmd_range`, which finds a huge page. -/
  | thp (vma : MapsVma) (lo hi : ℕ) (pmd : U64)
  /-- `pagemap_pmd_range`, which finds neither: the walk calls it again. -/
  | again
  /-- `pagemap_hugetlb_range`, for a huge page of `size` pages. -/
  | hugetlb (vma : MapsVma) (lo hi size : ℕ) (pte : U64) (shared : Bool)

/-- What the call adds to the buffer. -/
def Call.run (showPfn : Bool) (mm : MmStruct) : Call → Writer U64
  | hole lo hi => pagemapPteHole mm hi (hi - lo) lo
  | table vma lo hi ptes =>
    forPages lo hi fun page => pteToPagemapEntry k showPfn vma page (ptes page)
  | thp vma lo hi pmd =>
    let huge := thpOf k showPfn vma pmd
    populate huge.flags huge.step (hi - lo) (huge.frame (lo % 512))
  | again => skip
  | hugetlb vma lo hi size pte shared =>
    let huge := hugetlbOf k showPfn vma pte shared
    populate huge.flags huge.step (hi - lo) (huge.frame (lo % size))

/-- `walk_page_range`: it ends with the first call that does not return 0. -/
def walkPageRange (showPfn : Bool) (mm : MmStruct) (calls : List Call) : Writer U64 :=
  inTurn (calls.map (Call.run k showPfn mm))

/-! ## The words of an address space -/

/-- What is mapped at a page. -/
inductive Mapping where
  /-- There is no page table for it. -/
  | hole
  | pte (pte : U64)
  | thp (pmd : U64)
  | hugetlb (size : ℕ) (pte : U64) (shared : Bool)

/-- An address space: its VMAs, which begin and end with a page, and what is mapped. -/
structure AddressSpace extends MmStruct where
  aligned : ∀ vma ∈ vmas, 4096 ∣ vma.lo ∧ 4096 ∣ vma.hi
  mapping : ℕ → Mapping

/-- The VMA that a page is in. -/
def AddressSpace.vmaAt (a : AddressSpace) (page : ℕ) : Option MapsVma :=
  (a.findVma (BitVec.ofNat 64 (4096 * page))).filter fun vma => vma.lo ≤ 4096 * page

/-- The page is in a VMA with `VM_PFNMAP`. -/
def AddressSpace.pfnmapAt (a : AddressSpace) (page : ℕ) : Bool :=
  (a.vmaAt page).any fun vma => vma.vmFlags &&& vmPfnmap != 0

/-- What a walk meets at a page. `walk_page_test` hands a VMA with `VM_PFNMAP` to `pte_hole` as a
whole, unless there is a `test_walk`; those of `task_mmu.c` leave such a VMA out. -/
def AddressSpace.met (a : AddressSpace) (page : ℕ) : Mapping :=
  if a.pfnmapAt page then .hole else a.mapping page

/-- The word of the page `i` of a huge page. -/
def Huge.word (huge : Huge) (i : ℕ) : U64 := makePme (huge.frame i) huge.flags

/-- The word of a page. -/
def entryOf (showPfn : Bool) (a : AddressSpace) (page : ℕ) : U64 :=
  match a.vmaAt page with
  | none => 0
  | some vma =>
    match a.met page with
    | .hole => makePme 0 (vmaFlags vma)
    | .pte pte => pteToPagemapEntry k showPfn vma page pte
    | .thp pmd => (thpOf k showPfn vma pmd).word (page % 512)
    | .hugetlb size pte shared => (hugetlbOf k showPfn vma pte shared).word (page % size)

/-- The pages from `lo` to `mid` are in a VMA, and this is what the walk meets there. -/
def MapsTo (a : AddressSpace) (vma : MapsVma) (lo mid : ℕ) (mapping : ℕ → Mapping) : Prop :=
  ∀ page, lo ≤ page → page < mid → a.vmaAt page = some vma ∧ a.met page = mapping page

/-- What is known of the calls of a walk from the page `lo` to the page `hi`. -/
inductive Walks (a : AddressSpace) (hi : ℕ) : ℕ → List Call → Prop
  | done : Walks a hi hi []
  | again {lo : ℕ} {calls : List Call} : Walks a hi lo calls → Walks a hi lo (.again :: calls)
  | hole {lo mid : ℕ} {calls : List Call} : lo < mid → mid ≤ hi →
      (∀ page, lo ≤ page → page < mid → a.met page = .hole) →
      Walks a hi mid calls → Walks a hi lo (.hole lo mid :: calls)
  | table {lo mid : ℕ} {calls : List Call} {vma : MapsVma} {ptes : ℕ → U64} : lo < mid → mid ≤ hi →
      MapsTo a vma lo mid (fun page => .pte (ptes page)) →
      Walks a hi mid calls → Walks a hi lo (.table vma lo mid ptes :: calls)
  | thp {lo mid : ℕ} {calls : List Call} {vma : MapsVma} {pmd : U64} : lo < mid → mid ≤ hi →
      (∀ page, lo ≤ page → page < mid → page / 512 = lo / 512) →
      MapsTo a vma lo mid (fun _ => .thp pmd) →
      Walks a hi mid calls → Walks a hi lo (.thp vma lo mid pmd :: calls)
  | hugetlb {lo mid size : ℕ} {calls : List Call} {vma : MapsVma} {pte : U64} {shared : Bool} :
      lo < mid → mid ≤ hi → (∀ page, lo ≤ page → page < mid → page / size = lo / size) →
      MapsTo a vma lo mid (fun _ => .hugetlb size pte shared) →
      Walks a hi mid calls → Walks a hi lo (.hugetlb vma lo mid size pte shared :: calls)

/-- The words of the pages from `lo` to `hi`. -/
def entries (showPfn : Bool) (a : AddressSpace) (lo hi : ℕ) : List U64 :=
  (List.range' lo (hi - lo)).map (entryOf k showPfn a)

/-! ## What the callbacks add -/

variable {k} {showPfn : Bool} {a : AddressSpace} {lo mid hi : ℕ}

/-- A bit of a flag that may be there. -/
theorem getLsbD_flagIf (b : Bool) (flag : U64) (i : ℕ) :
    (flagIf b flag).getLsbD i = (b && flag.getLsbD i) := by
  cases b with
  | false => exact BitVec.getLsbD_zero
  | true => exact (Bool.true_and _).symm

/-- The pages up to `hi` are those up to `mid` and those from there on. -/
theorem range'_split (h : lo ≤ mid) (h' : mid ≤ hi) :
    List.range' lo (hi - lo) = List.range' lo (mid - lo) ++ List.range' mid (hi - mid) := by
  obtain ⟨m, rfl⟩ := Nat.exists_eq_add_of_le h
  obtain ⟨n, rfl⟩ := Nat.exists_eq_add_of_le h'
  rw [Nat.add_assoc, Nat.add_sub_cancel_left, Nat.add_sub_cancel_left, ← Nat.add_assoc,
    Nat.add_sub_cancel_left, List.range'_append_1]

/-- Words one after another. -/
theorem entries_append (h : lo ≤ mid) (h' : mid ≤ hi) :
    entries k showPfn a lo hi = entries k showPfn a lo mid ++ entries k showPfn a mid hi := by
  unfold entries
  rw [range'_split h h', List.map_append]

/-- The loop over pages puts the word of each page. -/
theorem puts_forPages {pme f : ℕ → U64} (h : ∀ page, lo ≤ page → page < hi → pme page = f page) :
    Puts pmLen ((List.range' lo (hi - lo)).map f) (forPages lo hi pme) := by
  have hitems : (List.range' lo (hi - lo)).map f =
      (List.range' lo (hi - lo)).flatMap fun page => [pme page] := by
    rw [← List.map_eq_flatMap]
    apply List.map_congr_left
    intro page hpage
    rw [List.mem_range'_1] at hpage
    exact (h page hpage.1 (by omega)).symm
  rw [hitems]
  exact Bounded.puts_inTurn fun page _ => Bounded.puts_put pmLen (pme page)

/-- The frame grows by the step from page to page. -/
def Huge.Grows (huge : Huge) : Prop := ∀ i, huge.frame (i + 1) = huge.frame i + huge.step

/-- The loop over a huge page puts the words of its pages. -/
theorem puts_populate {huge : Huge} (h : huge.Grows) (n i : ℕ) :
    Puts pmLen ((List.range' i n).map huge.word)
      (populate huge.flags huge.step n (huge.frame i)) := by
  induction n generalizing i with
  | zero => exact Bounded.puts_skip pmLen
  | succ n ih =>
    have hrest := ih (i + 1)
    rw [h i] at hrest
    exact Bounded.puts_andThen (Bounded.puts_put pmLen (huge.word i)) hrest

/-- The pages of a part of a huge page, by their place in it. -/
theorem map_mod_range' {f : ℕ → U64} {size : ℕ}
    (h : ∀ page, lo ≤ page → page < hi → page / size = lo / size) :
    (List.range' lo (hi - lo)).map (fun page => f (page % size)) =
      (List.range' (lo % size) (hi - lo)).map f := by
  rw [List.range'_eq_map_range, List.range'_eq_map_range, List.map_map, List.map_map]
  apply List.map_congr_left
  intro i hi'
  rw [List.mem_range] at hi'
  have hsame : (lo + i) / size = lo / size := h (lo + i) (by omega) (by omega)
  have hpage : (lo + i) % size = lo % size + i := by
    have hsplit := Nat.div_add_mod (lo + i) size
    have hsplit' := Nat.div_add_mod lo size
    rw [hsame] at hsplit
    omega
  exact congrArg f hpage

/-- A number of pages further, and one more. -/
theorem add_ofNat_succ (frame : U64) (i : ℕ) :
    frame + BitVec.ofNat 64 (i + 1) = frame + BitVec.ofNat 64 i + 1 := by
  rw [BitVec.ofNat_add, ← BitVec.add_assoc]
  rfl

/-- A type below a shifted offset is their sum, so that the next page is 32 further. -/
theorem swapFrame_succ (offset : U64) (entry : Softleaf) (i : ℕ) :
    swapFrame offset entry (i + 1) = swapFrame offset entry i + (1 : U64) <<< 5 := by
  have hsum (x : U64) : entry.type.setWidth 64 ||| x <<< 5 = entry.type.setWidth 64 + x <<< 5 := by
    refine (BitVec.add_eq_or_of_and_eq_zero _ _ ?_).symm
    apply BitVec.eq_of_getLsbD_eq
    intro j hj
    rw [BitVec.getLsbD_and, BitVec.getLsbD_setWidth, BitVec.getLsbD_shiftLeft]
    by_cases hlow : j < 5
    · simp [hlow]
    · simp [BitVec.getLsbD_of_ge entry.type j (by omega)]
  unfold swapFrame
  rw [hsum, hsum, add_ofNat_succ, BitVec.shiftLeft_add_distrib, BitVec.add_assoc]

/-- The frames of the pages of a huge page follow one another. -/
theorem grows_thpOf (showPfn : Bool) (vma : MapsVma) (pmd : U64) :
    (thpOf k showPfn vma pmd).Grows := by
  intro i
  unfold thpOf
  split_ifs
  · rfl
  · exact add_ofNat_succ (pmdPfn pmd) i
  · rfl
  · exact swapFrame_succ _ _ i
  · rfl
  · rfl

/-- Those of the pages of a `hugetlbfs` page too. -/
theorem grows_hugetlbOf (showPfn : Bool) (vma : MapsVma) (pte : U64) (shared : Bool) :
    (hugetlbOf k showPfn vma pte shared).Grows := by
  intro i
  unfold hugetlbOf
  split_ifs
  · exact add_ofNat_succ (ptePfn pte) i
  · rfl
  · rfl

/-- The page of a word is its address's. -/
theorem toNat_ofNat_page {page : ℕ} (h : page < 2^51) :
    (BitVec.ofNat 64 (4096 * page)).toNat = 4096 * page := by
  rw [BitVec.toNat_ofNat, Nat.mod_eq_of_lt (by omega)]

/-- Where no VMA ends above a page, the pages from there on are in no VMA. -/
theorem vmaAt_of_findVma_none {page q : ℕ} (h : a.findVma (BitVec.ofNat 64 (4096 * page)) = none)
    (hle : page ≤ q) (hq : q < 2^51) : a.vmaAt q = none := by
  have hall := Cursor.above_eq_none.mp h
  have hnone : a.findVma (BitVec.ofNat 64 (4096 * q)) = none := by
    apply Cursor.above_eq_none.mpr
    intro vma hvma
    have hend := hall vma hvma
    rw [toNat_ofNat_page (by omega)] at hend
    rw [toNat_ofNat_page hq]
    omega
  rw [AddressSpace.vmaAt, hnone]
  rfl

/-- The VMA that is found from a page is that of every page up to its end, once it has begun. -/
theorem vmaAt_of_findVma {page q : ℕ} {vma : MapsVma}
    (h : a.findVma (BitVec.ofNat 64 (4096 * page)) = some vma) (hle : page ≤ q)
    (hend : 4096 * q < vma.hi) (hq : q < 2^51) :
    a.vmaAt q = if vma.lo ≤ 4096 * q then some vma else none := by
  obtain ⟨-, pre, post, hvmas, hpre⟩ := Cursor.above_eq_some_iff.mp h
  have hfound : a.findVma (BitVec.ofNat 64 (4096 * q)) = some vma := by
    refine Cursor.above_eq_some_iff.mpr ⟨?_, pre, post, hvmas, ?_⟩
    · rwa [toNat_ofNat_page hq]
    · intro vma' hvma'
      have hbefore := hpre vma' hvma'
      rw [toNat_ofNat_page (by omega)] at hbefore
      rw [toNat_ofNat_page hq]
      omega
  rw [AddressSpace.vmaAt, hfound, Option.filter_some]
  simp only [decide_eq_true_eq]

/-- In a VMA without `VM_PFNMAP` the walk meets what is mapped. -/
theorem AddressSpace.met_of_vmaAt {page : ℕ} {vma : MapsVma} (hvma : a.vmaAt page = some vma)
    (h : vma.vmFlags &&& vmPfnmap = 0) : a.met page = a.mapping page := by
  unfold AddressSpace.met AddressSpace.pfnmapAt
  rw [hvma, Option.any_some, h]
  rfl

/-- Where there is no VMA, it does too. -/
theorem AddressSpace.met_of_vmaAt_none {page : ℕ} (hvma : a.vmaAt page = none) :
    a.met page = a.mapping page := by
  unfold AddressSpace.met AddressSpace.pfnmapAt
  rw [hvma]
  rfl

/-- The word of a page where the walk meets nothing. -/
def holeWord (a : AddressSpace) (page : ℕ) : U64 :=
  match a.vmaAt page with
  | none => makePme 0 0
  | some vma => makePme 0 (vmaFlags vma)

/-- `pagemap_pte_hole` puts the words of pages where the walk meets nothing, VMA by VMA. -/
theorem puts_pagemapPteHole (hhi : hi ≤ 2^51) (rounds page : ℕ) (hrounds : hi - page ≤ rounds) :
    Puts pmLen ((List.range' page (hi - page)).map (holeWord a))
      (pagemapPteHole a.toMmStruct hi rounds page) := by
  -- on the rounds: each of them leaves a VMA behind, and so at least a page
  induction rounds generalizing page with
  | zero =>
    rw [Nat.le_zero.mp hrounds]
    exact Bounded.puts_skip pmLen
  | succ rounds ih =>
    unfold pagemapPteHole
    by_cases hend : hi ≤ page
    · rw [if_pos hend, Nat.sub_eq_zero_of_le hend]
      exact Bounded.puts_skip pmLen
    · rw [if_neg hend]
      cases hfind : a.findVma (BitVec.ofNat 64 (4096 * page)) with
      | none =>
        apply puts_forPages
        intro q hq hq'
        rw [holeWord, vmaAt_of_findVma_none hfind hq (by omega)]
      | some vma =>
        obtain ⟨hmem, hlt⟩ := Cursor.mem_and_lt_of_above hfind
        rw [toNat_ofNat_page (by omega)] at hlt
        have hne : vma.lo < vma.hi := a.ordered.nonempty vma hmem
        obtain ⟨⟨first, hfirst⟩, ⟨behind, hbehind⟩⟩ := a.aligned vma hmem
        have hlo : pageOf vma.lo = first := by
          rw [pageOf, hfirst, Nat.mul_div_cancel_left _ (by decide)]
        have hhi' : pageOf vma.hi = behind := by
          rw [pageOf, hbehind, Nat.mul_div_cancel_left _ (by decide)]
        simp only [hlo, hhi']
        -- where the pages before the VMA end, and where those in it do
        obtain ⟨mid, hmid⟩ : ∃ mid, mid = max page (min hi first) := ⟨_, rfl⟩
        obtain ⟨mid', hmid'⟩ : ∃ mid', mid' = max mid (min hi behind) := ⟨_, rfl⟩
        rw [← hmid, ← hmid', range'_split (show page ≤ mid by omega) (show mid ≤ hi by omega),
          range'_split (show mid ≤ mid' by omega) (show mid' ≤ hi by omega), List.map_append,
          List.map_append]
        refine Bounded.puts_andThen ?_ (Bounded.puts_andThen ?_ (ih mid' (by omega)))
        · rw [show mid - page = min hi first - page by omega]
          apply puts_forPages
          intro q hq hq'
          rw [holeWord, vmaAt_of_findVma hfind hq (by omega) (by omega), if_neg (by omega)]
        · rw [show mid' - mid = min hi behind - mid by omega]
          apply puts_forPages
          intro q hq hq'
          rw [holeWord, vmaAt_of_findVma hfind (by omega) (by omega) (by omega),
            if_pos (by omega)]

/-- A walk puts the word of each page from its start to its end. -/
theorem puts_walkPageRange {calls : List Call} (hhi : hi ≤ 2^51) (h : Walks a hi lo calls) :
    lo ≤ hi ∧ Puts pmLen (entries k showPfn a lo hi)
      (walkPageRange k showPfn a.toMmStruct calls) := by
  induction h with
  | done =>
    refine ⟨le_rfl, ?_⟩
    rw [entries, Nat.sub_self]
    exact Bounded.puts_skip pmLen
  | again _ ih => exact ⟨ih.1, Bounded.puts_andThen (Bounded.puts_skip pmLen) ih.2⟩
  | @hole lo mid calls hle hle' hmapping _ ih =>
    refine ⟨hle.le.trans hle', ?_⟩
    rw [entries_append hle.le hle']
    refine Bounded.puts_andThen ?_ ih.2
    -- where the walk meets nothing, the word of a page says only what its VMA does
    have hwords : entries k showPfn a lo mid = (List.range' lo (mid - lo)).map (holeWord a) := by
      apply List.map_congr_left
      intro page hpage
      rw [List.mem_range'_1] at hpage
      unfold entryOf holeWord
      rw [hmapping page hpage.1 (by omega)]
      cases a.vmaAt page with
      | none => rfl
      | some vma => rfl
    rw [hwords]
    exact puts_pagemapPteHole (hle'.trans hhi) (mid - lo) lo le_rfl
  | @table lo mid calls vma ptes hle hle' hmaps _ ih =>
    refine ⟨hle.le.trans hle', ?_⟩
    rw [entries_append hle.le hle']
    refine Bounded.puts_andThen (puts_forPages ?_) ih.2
    intro page hpage hpage'
    obtain ⟨hvma, hmapping⟩ := hmaps page hpage hpage'
    rw [entryOf, hvma, hmapping]
  | @thp lo mid calls vma pmd hle hle' hsame hmaps _ ih =>
    refine ⟨hle.le.trans hle', ?_⟩
    rw [entries_append hle.le hle']
    refine Bounded.puts_andThen ?_ ih.2
    -- the pages of the call are one after another in the huge page
    have hwords : entries k showPfn a lo mid = (List.range' (lo % 512) (mid - lo)).map
        (thpOf k showPfn vma pmd).word := by
      rw [← map_mod_range' hsame]
      apply List.map_congr_left
      intro page hpage
      rw [List.mem_range'_1] at hpage
      obtain ⟨hvma, hmapping⟩ := hmaps page hpage.1 (by omega)
      rw [entryOf, hvma, hmapping]
    rw [hwords]
    exact puts_populate (grows_thpOf showPfn vma pmd) (mid - lo) (lo % 512)
  | @hugetlb lo mid size calls vma pte shared hle hle' hsame hmaps _ ih =>
    refine ⟨hle.le.trans hle', ?_⟩
    rw [entries_append hle.le hle']
    refine Bounded.puts_andThen ?_ ih.2
    have hwords : entries k showPfn a lo mid = (List.range' (lo % size) (mid - lo)).map
        (hugetlbOf k showPfn vma pte shared).word := by
      rw [← map_mod_range' hsame]
      apply List.map_congr_left
      intro page hpage
      rw [List.mem_range'_1] at hpage
      obtain ⟨hvma, hmapping⟩ := hmaps page hpage.1 (by omega)
      rw [entryOf, hvma, hmapping]
    rw [hwords]
    exact puts_populate (grows_hugetlbOf showPfn vma pte shared) (mid - lo) (lo % size)

/-! ## `pagemap_read` -/

/-- An open pagemap file: what is fixed of its reader and of its process. -/
structure PagemapFile where
  /-- `file_ns_capable` with `CAP_SYS_ADMIN`. -/
  sysAdmin : Bool
  /-- `mm->task_size`, in pages. -/
  taskPages : ℕ
  taskPages_le : taskPages ≤ 2^51
  /-- The address bits that `untagged_addr_remote` keeps. -/
  untagMask : U64
  /-- The tag is not in the addresses that the process can have. -/
  untag_user : ∀ page ≤ taskPages,
    BitVec.ofNat 64 (4096 * page) &&& untagMask = BitVec.ofNat 64 (4096 * page)

/-- `mm->task_size`. -/
def PagemapFile.taskSize (f : PagemapFile) : U64 := BitVec.ofNat 64 (4096 * f.taskPages)

/-- What a read meets at one of its pieces: whether it gets the mmap lock, the address space then,
the walk over a range of pages of it, and whether `copy_to_user` copies all. -/
structure Piece where
  locked : Bool
  view : AddressSpace
  walk : (lo hi : ℕ) → List Call
  walks : ∀ lo hi, lo ≤ hi → Walks view hi lo (walk lo hi)
  copied : Bool

/-- What a read meets. -/
structure Attempt where
  /-- `mm && mmget_not_zero(mm)`. -/
  mmget : Bool
  /-- `kmalloc_array` succeeds. -/
  allocated : Bool
  /-- The first `mmap_read_lock_killable` succeeds. -/
  locked : Bool
  pieces : ℕ → Piece

/-- What a read returns, what it copied, and the file's position behind it. -/
structure ReadResult where
  ret : ℤ
  words : List U64
  pos : U64

/-- The state of the loop. -/
structure ReadState where
  startVaddr : U64
  count : ℕ
  copied : ℕ
  words : List U64

/-- The `end` of the next piece. -/
def pieceBound (startVaddr endVaddr : U64) : U64 :=
  let bound := (startVaddr + 0x200000) &&& ~~~(0x200000 - 1)
  if bound < startVaddr ∨ endVaddr < bound then endVaddr else bound

/-- The loop of `pagemap_read`, which reads a page in each round at least: the state behind it, and
0 or the error that it ends with. -/
def readPieces (k : PageFacts) (showPfn : Bool) (endVaddr : U64) (pieces : ℕ → Piece) :
    ℕ → ℕ → ReadState → ReadState × ℤ
  | 0, _, s => (s, 0)
  | rounds + 1, i, s =>
    if s.count = 0 ∨ endVaddr ≤ s.startVaddr then (s, 0)
    else
      let bound := pieceBound s.startVaddr endVaddr
      let piece := pieces i
      if !piece.locked then (s, -4)
      else
        let calls := piece.walk (pageOf s.startVaddr.toNat) (pageOf bound.toNat)
        let buffer := (walkPageRange k showPfn piece.view.toMmStruct calls []).2
        let len := min s.count (8 * buffer.length)
        if !piece.copied then ({ s with startVaddr := bound }, -14)
        else
          readPieces k showPfn endVaddr pieces rounds (i + 1)
            ⟨bound, s.count - len, s.copied + len, s.words ++ buffer.take (len / 8)⟩

/-- `end_vaddr`, for a read of `count` bytes from an address on. -/
def endVaddr (f : PagemapFile) (start : U64) (count : ℕ) : U64 :=
  let bound := start + BitVec.ofNat 64 (count / 8) <<< 12
  if start ≤ bound ∧ bound < f.taskSize then bound else f.taskSize

/-- The addresses that a read of `count` bytes from the page `svpfn` on begins and ends with. -/
def readRange (f : PagemapFile) (svpfn : U64) (count : ℕ) : U64 × U64 :=
  let range :=
    if svpfn ≤ BitVec.allOnes 64 >>> 12 then
      let start := (svpfn <<< 12) &&& f.untagMask
      (start, endVaddr f start count)
    else (f.taskSize, f.taskSize)
  (if f.taskSize < range.1 then range.2 else range.1, range.2)

/-- `pagemap_read`. -/
def pagemapRead (k : PageFacts) (f : PagemapFile) (a : Attempt) (pos : U64) (count : ℕ) :
    ReadResult :=
  if !a.mmget then ⟨0, [], pos⟩
  else if pos.toNat % 8 ≠ 0 ∨ count % 8 ≠ 0 then ⟨-22, [], pos⟩
  else if count = 0 then ⟨0, [], pos⟩
  else if !a.allocated then ⟨-12, [], pos⟩
  else
    let svpfn := pos / 8
    if svpfn ≤ BitVec.allOnes 64 >>> 12 ∧ a.locked = false then ⟨-4, [], pos⟩
    else
      let range := readRange f svpfn count
      let rounds := pageOf range.2.toNat - pageOf range.1.toNat
      let done := readPieces k f.sysAdmin range.2 a.pieces rounds 0 ⟨range.1, count, 0, []⟩
      if done.2 < 0 then ⟨done.2, done.1.words, pos⟩
      else ⟨done.1.copied, done.1.words, pos + BitVec.ofNat 64 done.1.copied⟩

/-- What a read that nothing disturbs meets: all of the locks and copies succeed. -/
structure Attempt.Undisturbed (t : Attempt) : Prop where
  mmget : t.mmget = true
  allocated : t.allocated = true
  locked : t.locked = true
  pieces : ∀ i, (t.pieces i).locked = true ∧ (t.pieces i).copied = true

/-- The page that a position of the file asks for. -/
def PagemapFile.firstPage (f : PagemapFile) (pos : U64) : ℕ :=
  if pos.toNat / 8 < 2^52 then pageOf ((pos / 8) <<< 12 &&& f.untagMask).toNat else f.taskPages

/-- The words of the pages from `lo` to `hi`, each as it is when its piece, of which the first one
is number `i`, is read. -/
def pieceWords (k : PageFacts) (showPfn : Bool) (pieces : ℕ → Piece) (i lo hi : ℕ) : List U64 :=
  (List.range' lo (hi - lo)).map fun page =>
    entryOf k showPfn (pieces (i + (page / 512 - lo / 512))).view page

variable {pieces : ℕ → Piece} {stop : U64}

/-- Where the piece ends that begins with the page `p`. -/
def pieceEnd (p hi : ℕ) : ℕ := min ((p / 512 + 1) * 512) hi

/-- The code computes the end of a piece. -/
theorem toNat_pieceBound {s : U64} {p hi : ℕ} (hs : s.toNat = 4096 * p)
    (he : stop.toNat = 4096 * hi) (hp : p < hi) (hhi : hi ≤ 2^51) :
    (pieceBound s stop).toNat = 4096 * pieceEnd p hi := by
  have hmask : (~~~(0x200000 - 1) : U64) = BitField.field 64 21 64 := by decide
  have hsum : (s + 0x200000).toNat = 4096 * p + 0x200000 := by
    rw [BitVec.toNat_add, hs, show (0x200000 : U64).toNat = 0x200000 from rfl]
    exact Nat.mod_eq_of_lt (by omega)
  have hbound : ((s + 0x200000) &&& ~~~(0x200000 - 1)).toNat = 4096 * ((p / 512 + 1) * 512) := by
    rw [hmask, BitField.toNat_and_field _ (by decide), hsum]
    omega
  unfold pieceBound pieceEnd
  dsimp only
  split_ifs with hend
  · rw [BitVec.lt_def, BitVec.lt_def, hbound, hs, he] at hend
    omega
  · rw [BitVec.lt_def, BitVec.lt_def, hbound, hs, he] at hend
    omega

/-- The words of a piece, and of those behind it. -/
theorem pieceWords_split {p hi : ℕ} (i : ℕ) (hp : p < hi) :
    pieceWords k showPfn pieces i p hi =
      entries k showPfn (pieces i).view p (pieceEnd p hi) ++
        pieceWords k showPfn pieces (i + 1) (pieceEnd p hi) hi := by
  have hle : p ≤ pieceEnd p hi := by
    unfold pieceEnd
    omega
  have hle' : pieceEnd p hi ≤ hi := min_le_right ..
  unfold pieceWords entries
  rw [range'_split hle hle', List.map_append]
  congr 1
  · apply List.map_congr_left
    intro q hq
    rw [List.mem_range'_1] at hq
    have hsame : q / 512 = p / 512 := by
      unfold pieceEnd at hq
      omega
    rw [hsame, Nat.sub_self, Nat.add_zero]
  · apply List.map_congr_left
    intro q hq
    rw [List.mem_range'_1] at hq
    have hnext : i + (q / 512 - p / 512) = i + 1 + (q / 512 - pieceEnd p hi / 512) := by
      unfold pieceEnd at hq ⊢
      omega
    rw [hnext]

/-- A piece is not empty, and has no more pages than the buffer. -/
theorem pieceEnd_spec {p hi : ℕ} (hp : p < hi) :
    p < pieceEnd p hi ∧ pieceEnd p hi ≤ hi ∧ pieceEnd p hi - p ≤ pmLen := by
  unfold pieceEnd pmLen
  omega

/-- The loop reads the words from its start to its end, if nothing disturbs it. -/
theorem readPieces_eq {hi : ℕ} (hgood : ∀ i, (pieces i).locked = true ∧ (pieces i).copied = true)
    (hhi : hi ≤ 2^51) (he : stop.toNat = 4096 * hi) (rounds i p : ℕ) (s : ReadState)
    (hs : s.startVaddr.toNat = 4096 * p) (hp : p ≤ hi) (hcount : 8 * (hi - p) ≤ s.count)
    (hrounds : hi - p ≤ rounds) :
    readPieces k showPfn stop pieces rounds i s =
      (⟨stop, s.count - 8 * (hi - p), s.copied + 8 * (hi - p),
        s.words ++ pieceWords k showPfn pieces i p hi⟩, 0) := by
  -- at the end the loop leaves the state as it is
  have hstop (i p : ℕ) (s : ReadState) (hs : s.startVaddr.toNat = 4096 * p) (hp : p = hi) :
      (s, (0 : ℤ)) = (⟨stop, s.count - 8 * (hi - p), s.copied + 8 * (hi - p),
        s.words ++ pieceWords k showPfn pieces i p hi⟩, 0) := by
    subst hp
    have hstart : s.startVaddr = stop := BitVec.eq_of_toNat_eq (hs.trans he.symm)
    rw [Nat.sub_self, pieceWords, Nat.sub_self, ← hstart]
    simp
  induction rounds generalizing i p s with
  | zero => exact hstop i p s hs (by omega)
  | succ rounds ih =>
    unfold readPieces
    rcases hp.eq_or_lt with heq | hlt
    · rw [if_pos (.inr (by rw [BitVec.le_def, hs, he, heq]))]
      exact hstop i p s hs heq
    · have hgo : ¬ (s.count = 0 ∨ stop ≤ s.startVaddr) := by
        rw [BitVec.le_def, hs, he]
        omega
      obtain ⟨hbegin, hend, hsize⟩ := pieceEnd_spec hlt
      have hbound := toNat_pieceBound hs he hlt hhi
      have hpages : pageOf s.startVaddr.toNat = p ∧
          pageOf (pieceBound s.startVaddr stop).toNat = pieceEnd p hi := by
        rw [hs, hbound]
        exact ⟨Nat.mul_div_cancel_left _ (by decide), Nat.mul_div_cancel_left _ (by decide)⟩
      have hlen : (entries k showPfn (pieces i).view p (pieceEnd p hi)).length =
          pieceEnd p hi - p := by
        rw [entries, List.length_map, List.length_range']
      obtain ⟨-, hputs⟩ : _ ∧ Puts pmLen (entries k showPfn (pieces i).view p (pieceEnd p hi))
          (walkPageRange k showPfn (pieces i).view.toMmStruct
            ((pieces i).walk p (pieceEnd p hi))) :=
        puts_walkPageRange (hend.trans hhi) ((pieces i).walks p (pieceEnd p hi) hbegin.le)
      -- a piece has no more pages than the buffer has room for, so that no word is lost
      have hbuffer := hputs.items_eq (by decide)
      rw [List.take_of_length_le (by omega)] at hbuffer
      have hmin : min s.count (8 * (pieceEnd p hi - p)) = 8 * (pieceEnd p hi - p) := by omega
      simp only [if_neg hgo, hpages, hbuffer, (hgood i).1, (hgood i).2, Bool.not_true,
        Bool.false_eq_true, if_false, hlen, hmin, Nat.mul_div_cancel_left _ (show 0 < 8 by decide)]
      have hcount' : 8 * (hi - pieceEnd p hi) ≤ s.count - 8 * (pieceEnd p hi - p) := by omega
      have hleft : s.count - 8 * (pieceEnd p hi - p) - 8 * (hi - pieceEnd p hi) =
          s.count - 8 * (hi - p) := by omega
      have hcopied : s.copied + 8 * (pieceEnd p hi - p) + 8 * (hi - pieceEnd p hi) =
          s.copied + 8 * (hi - p) := by omega
      rw [List.take_of_length_le hlen.le,
        ih (i + 1) (pieceEnd p hi) _ hbound hend hcount' (by omega), hleft, hcopied,
        List.append_assoc, ← pieceWords_split i hlt]

/-- A shifted word is a multiple of a page, whatever is masked away of it. -/
theorem dvd_toNat_shiftLeft_and (x mask : U64) : 4096 ∣ (x <<< 12 &&& mask).toNat := by
  have hmask : x <<< 12 &&& mask = (x &&& mask >>> 12) <<< 12 := by
    apply BitVec.eq_of_getLsbD_eq
    intro i hi
    rw [BitVec.getLsbD_and, BitVec.getLsbD_shiftLeft, BitVec.getLsbD_shiftLeft, BitVec.getLsbD_and,
      BitVec.getLsbD_ushiftRight]
    by_cases hlow : i < 12
    · simp [hlow]
    · rw [show 12 + (i - 12) = i by omega, Bool.and_assoc]
  rw [hmask, BitVec.toNat_shiftLeft, Nat.shiftLeft_eq]
  omega

/-- The number of words that a read of `count` bytes from `pos` on gets: it ends with the address
space. -/
def PagemapFile.wordsFrom (f : PagemapFile) (pos : U64) (count : ℕ) : ℕ :=
  min (count / 8) (f.taskPages - f.firstPage pos)

/-- The size of the address space. -/
theorem PagemapFile.toNat_taskSize (f : PagemapFile) : f.taskSize.toNat = 4096 * f.taskPages := by
  have hle := f.taskPages_le
  rw [PagemapFile.taskSize, BitVec.toNat_ofNat, Nat.mod_eq_of_lt (by omega)]

/-- `end_vaddr` is the end of the range, or that of the address space. -/
theorem toNat_endVaddr (f : PagemapFile) {start : U64} {first count : ℕ}
    (hstart : start.toNat = 4096 * first) (hmax : count ≤ 0x7ffff000) :
    (endVaddr f start count).toNat = 4096 * min f.taskPages (first + count / 8) := by
  have htask := f.toNat_taskSize
  have hle := f.taskPages_le
  have hlt := start.isLt
  have hlen : (BitVec.ofNat 64 (count / 8) <<< 12).toNat = 4096 * (count / 8) := by
    rw [BitVec.toNat_shiftLeft, BitVec.toNat_ofNat, Nat.shiftLeft_eq]
    omega
  have hbound : (start + BitVec.ofNat 64 (count / 8) <<< 12).toNat =
      (4096 * first + 4096 * (count / 8)) % 2^64 := by
    rw [BitVec.toNat_add, hstart, hlen]
  unfold endVaddr
  dsimp only
  split_ifs with hend
  · rw [BitVec.le_def, BitVec.lt_def, hbound, hstart, htask] at hend
    rw [hbound]
    omega
  · rw [BitVec.le_def, BitVec.lt_def, hbound, hstart, htask] at hend
    rw [htask]
    omega

/-- The addresses of a read are those of as many pages as there are words, from the first one on. -/
theorem readRange_spec (f : PagemapFile) (pos : U64) {count : ℕ} (hmax : count ≤ 0x7ffff000) :
    ∃ p, (readRange f (pos / 8) count).1.toNat = 4096 * p ∧
      (readRange f (pos / 8) count).2.toNat = 4096 * (p + f.wordsFrom pos count) ∧
      p + f.wordsFrom pos count ≤ f.taskPages ∧
      (f.wordsFrom pos count = 0 ∨ p = f.firstPage pos) := by
  have htask := f.toNat_taskSize
  have hones : (BitVec.allOnes 64 >>> 12 : U64).toNat = 2^52 - 1 := by decide
  have hpos : (pos / 8).toNat = pos.toNat / 8 := BitVec.toNat_udiv
  unfold PagemapFile.wordsFrom PagemapFile.firstPage
  generalize pos / 8 = svpfn at *
  unfold readRange
  dsimp only
  by_cases hbig : svpfn ≤ BitVec.allOnes 64 >>> 12
  · rw [if_pos hbig]
    rw [BitVec.le_def, hones, hpos] at hbig
    rw [if_pos (show pos.toNat / 8 < 2^52 by omega)]
    obtain ⟨first, hfirst⟩ := dvd_toNat_shiftLeft_and svpfn f.untagMask
    have hpage : pageOf (4096 * first) = first := Nat.mul_div_cancel_left _ (by decide)
    have hend := toNat_endVaddr f hfirst hmax
    rw [hfirst, hpage]
    by_cases hout : f.taskSize < svpfn <<< 12 &&& f.untagMask
    · rw [if_pos hout, hend]
      rw [BitVec.lt_def, htask, hfirst] at hout
      exact ⟨f.taskPages, by omega, by omega, by omega, .inl (by omega)⟩
    · rw [if_neg hout, hend, hfirst]
      rw [BitVec.lt_def, htask, hfirst] at hout
      exact ⟨first, rfl, by omega, by omega, .inr rfl⟩
  · rw [if_neg hbig, if_neg (BitVec.lt_irrefl _), htask]
    rw [BitVec.le_def, hones, hpos] at hbig
    rw [if_neg (by omega)]
    exact ⟨f.taskPages, rfl, by omega, by omega, .inl (by omega)⟩

/-- What an undisturbed read returns: the words of the pages from the one that the position asks for
on, until there are enough of them or the address space ends. -/
theorem pagemapRead_eq {f : PagemapFile} {t : Attempt} {pos : U64} {count : ℕ}
    (ht : t.Undisturbed) (hpos : 8 ∣ pos.toNat) (hcount : 8 ∣ count) (hmax : count ≤ 0x7ffff000) :
    pagemapRead k f t pos count =
      ⟨8 * f.wordsFrom pos count,
        pieceWords k f.sysAdmin t.pieces 0 (f.firstPage pos)
          (f.firstPage pos + f.wordsFrom pos count),
        pos + BitVec.ofNat 64 (8 * f.wordsFrom pos count)⟩ := by
  have haligned : ¬ (pos.toNat % 8 ≠ 0 ∨ count % 8 ≠ 0) := by omega
  have hempty (p : ℕ) : pieceWords k f.sysAdmin t.pieces 0 p (p + 0) = [] := by
    rw [pieceWords, Nat.add_zero, Nat.sub_self]
    rfl
  unfold pagemapRead
  rw [ht.mmget, ht.allocated, ht.locked, if_neg haligned]
  simp only [Bool.not_true, Bool.false_eq_true, if_false, Bool.true_eq_false, and_false]
  by_cases hzero : count = 0
  · have hnone : f.wordsFrom pos count = 0 := by
      rw [PagemapFile.wordsFrom, hzero]
      exact Nat.zero_min _
    rw [if_pos hzero, hnone, hempty]
    simp
  · rw [if_neg hzero]
    obtain ⟨p, hstart, hstop, hle, hor⟩ := readRange_spec f pos hmax
    have hfew : f.wordsFrom pos count ≤ count / 8 := min_le_left ..
    have hpages (n : ℕ) : pageOf (4096 * n) = n := Nat.mul_div_cancel_left _ (by decide)
    rw [hstart, hstop, hpages, hpages,
      readPieces_eq ht.pieces (hle.trans f.taskPages_le) hstop _ 0 p _ hstart
        (Nat.le_add_right _ _) (by simp only; omega) le_rfl]
    simp only [Nat.add_sub_cancel_left, Nat.zero_add, List.nil_append, lt_irrefl, if_false]
    rcases hor with hnone | hfirst
    · rw [hnone, hempty, hempty]
      rfl
    · rw [hfirst]
      rfl

/-- The words of pieces, by their places. -/
theorem getElem?_pieceWords (i : ℕ) {lo hi j : ℕ} (h : j < hi - lo) :
    (pieceWords k showPfn pieces i lo hi)[j]? =
      some (entryOf k showPfn (pieces (i + ((lo + j) / 512 - lo / 512))).view (lo + j)) := by
  rw [pieceWords, List.getElem?_map, List.getElem?_range' h, Nat.one_mul]
  rfl

/-- A read that nothing disturbs returns a word for each page from the one that the position asks
for on, until there are enough of them or the address space ends, and moves the position behind
them. Each word is that of its page, as it is when the piece of 512 pages is read that has it. -/
theorem pagemapRead_words {f : PagemapFile} {t : Attempt} {pos : U64} {count : ℕ}
    (ht : t.Undisturbed) (hpos : 8 ∣ pos.toNat) (hcount : 8 ∣ count) (hmax : count ≤ 0x7ffff000) :
    let first := f.firstPage pos
    let n := min (count / 8) (f.taskPages - first)
    let r := pagemapRead k f t pos count
    r.ret = 8 * n ∧ r.pos = pos + BitVec.ofNat 64 (8 * n) ∧ r.words.length = n ∧
      ∀ i < n, r.words[i]? =
        some (entryOf k f.sysAdmin (t.pieces ((first + i) / 512 - first / 512)).view
          (first + i)) := by
  intro first n r
  have hr : r = ⟨8 * n, pieceWords k f.sysAdmin t.pieces 0 first (first + n),
      pos + BitVec.ofNat 64 (8 * n)⟩ := pagemapRead_eq ht hpos hcount hmax
  have hpages : first + n - first = n := Nat.add_sub_cancel_left first n
  rw [hr]
  refine ⟨rfl, rfl, ?_, fun i hi => ?_⟩
  · rw [pieceWords, List.length_map, List.length_range', hpages]
  · rw [getElem?_pieceWords 0 (by rwa [hpages]), Nat.zero_add]

/-! ## A walk that calls back page by page -/

/-- The call for a page. -/
def callOf (a : AddressSpace) (page : ℕ) : Call :=
  match a.vmaAt page, a.met page with
  | some vma, .pte pte => .table vma page (page + 1) fun _ => pte
  | some vma, .thp pmd => .thp vma page (page + 1) pmd
  | some vma, .hugetlb size pte shared => .hugetlb vma page (page + 1) size pte shared
  | _, _ => .hole page (page + 1)

/-- Where only pages of VMAs are mapped, the calls page by page are those of a walk. -/
theorem walks_callOf (hmapped : ∀ page, a.vmaAt page = none → a.mapping page = .hole) {lo hi : ℕ}
    (h : lo ≤ hi) : Walks a hi lo ((List.range' lo (hi - lo)).map (callOf a)) := by
  obtain ⟨n, rfl⟩ := Nat.exists_eq_add_of_le h
  rw [Nat.add_sub_cancel_left]
  induction n generalizing lo with
  | zero => exact .done
  | succ n ih =>
    have hrest := @ih (lo + 1) (Nat.le_add_right _ _)
    rw [show lo + 1 + n = lo + (n + 1) by omega] at hrest
    have hone {page : ℕ} (h1 : lo ≤ page) (h2 : page < lo + 1) : page = lo := by omega
    rw [List.range'_succ, List.map_cons]
    unfold callOf
    cases hvma : a.vmaAt lo with
    | none =>
      refine .hole (by omega) (by omega) ?_ hrest
      intro page h1 h2
      rw [hone h1 h2, AddressSpace.met_of_vmaAt_none hvma]
      exact hmapped lo hvma
    | some vma =>
      cases hmap : a.met lo with
      | hole =>
        refine .hole (by omega) (by omega) ?_ hrest
        intro page h1 h2
        rw [hone h1 h2, hmap]
      | pte pte =>
        refine .table (by omega) (by omega) ?_ hrest
        intro page h1 h2
        rw [hone h1 h2]
        exact ⟨hvma, hmap⟩
      | thp pmd =>
        refine .thp (by omega) (by omega) ?_ ?_ hrest
        · intro page h1 h2
          rw [hone h1 h2]
        · intro page h1 h2
          rw [hone h1 h2]
          exact ⟨hvma, hmap⟩
      | hugetlb size pte shared =>
        refine .hugetlb (by omega) (by omega) ?_ ?_ hrest
        · intro page h1 h2
          rw [hone h1 h2]
        · intro page h1 h2
          rw [hone h1 h2]
          exact ⟨hvma, hmap⟩

/-- An address space with a page at 0x1000, in the frame 5, and another one that is not mapped. -/
def demoSpace : AddressSpace where
  toMmStruct := MapsSeq.demoMm
  aligned := by decide
  mapping page := if page = 1 then .pte 0x5067 else .hole

/-- Only a page of a VMA is mapped. -/
theorem demoSpace_mapped (page : ℕ) (hnone : demoSpace.vmaAt page = none) :
    demoSpace.mapping page = .hole := by
  have hone : page ≠ 1 := by
    rintro rfl
    exact absurd hnone (by decide)
  exact if_neg hone

/-- A read of it. -/
def demoPiece : Piece where
  locked := true
  view := demoSpace
  walk lo hi := (List.range' lo (hi - lo)).map (callOf demoSpace)
  walks _ _ h := walks_callOf demoSpace_mapped h
  copied := true

/-- A file of a process with 16 pages. -/
def demoPagemap : PagemapFile where
  sysAdmin := true
  taskPages := 16
  taskPages_le := by decide
  untagMask := .allOnes 64
  untag_user _ _ := BitVec.and_allOnes

/-- What the read meets. -/
def demoAttempt : Attempt := ⟨true, true, true, fun _ => demoPiece⟩

/-- Nothing disturbs it. -/
theorem demoAttempt_undisturbed : demoAttempt.Undisturbed :=
  ⟨rfl, rfl, rfl, fun _ => ⟨rfl, rfl⟩⟩

/-- Pages of which nothing is known. -/
def demoFacts : PageFacts where
  vmNormalPage _ _ _ := none
  folioTestAnon _ := true
  pageMapcount := true
  precisePageMapcount _ := 1
  maybeMappedShared _ := false
  thpMigrationSupported := true
  softleaf _ := ⟨0, 0, none, false, false⟩
  hugePteUffdWp _ := false
  pteSwpUffdWpAny _ := false

/-- `pagemapRead_words`, for a read of 32 words from the third one on. -/
theorem pagemapRead_words_demo :
    let first := demoPagemap.firstPage 16
    let n := min (256 / 8) (demoPagemap.taskPages - first)
    let r := pagemapRead demoFacts demoPagemap demoAttempt 16 256
    r.ret = 8 * n ∧ r.pos = 16 + BitVec.ofNat 64 (8 * n) ∧ r.words.length = n ∧
      ∀ i < n, r.words[i]? =
        some (entryOf demoFacts true (demoAttempt.pieces ((first + i) / 512 - first / 512)).view
          (first + i)) :=
  pagemapRead_words demoAttempt_undisturbed (by decide) (by decide) (by decide)

end PagemapRead

end KernelPortfolio
