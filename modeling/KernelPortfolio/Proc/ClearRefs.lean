import KernelPortfolio.Headers.PteOps
import KernelPortfolio.Proc.PagemapRegions
import KernelPortfolio.Proc.PagemapWords

/-!
# How the soft-dirty bits are cleared

A write of 4 to `/proc/PID/clear_refs` clears the soft-dirty bits of a process: that of each VMA as
a whole, and those of the entries that a walk over the page tables meets. An entry that is present
is write-protected as well, so that the next write to the page faults and sets the bit again.

`clearRefsWrite_changes` says what becomes of each entry. Of a page that is tracked, a reader of
`/proc/PID/pagemap` no longer sees a soft-dirty bit, and the hardware does not write to it before
the kernel has been asked (`softDirty_clearRefsWrite`); a page that is present stays so, and in its
frame (`presentWord_clearRefsWrite`).
-/

namespace KernelPortfolio

open PagemapRead

/-! ## Entries that map a huge page -/

/-- `pmd_wrprotect`. -/
def pmdWrprotect (pmd : U64) : U64 := mksaveddirtyShift (pteClearFlags pmd pageRw)

/-- `pmd_mkdirty`. -/
def pmdMkdirty (pmd : U64) : U64 :=
  mksaveddirtyShift (pteSetFlags pmd (pageDirty ||| pageSoftDirty))

/-- `pmd_mkyoung`. -/
def pmdMkyoung (pmd : U64) : U64 := pteSetFlags pmd pageAccessed

/-- `pmd_clear_soft_dirty`. -/
def pmdClearSoftDirty (pmd : U64) : U64 := pteClearFlags pmd pageSoftDirty

/-- `pmd_swp_clear_soft_dirty`. -/
def pmdSwpClearSoftDirty (pmd : U64) : U64 := pteClearFlags pmd pageSwpSoftDirty

/-- What the kernel knows, beside what `pagemap_read` does. -/
structure ClearFacts extends PageFacts where
  /-- `pgtable_supports_soft_dirty`. -/
  supportsSoftDirty : Bool
  /-- `is_cow_mapping`. -/
  isCowMapping : (flags : U64) → Bool
  /-- `MMF_HAS_PINNED`. -/
  hasPinned : Bool
  /-- `folio_maybe_dma_pinned`, of the folio of a page. -/
  maybeDmaPinned : U64 → Bool
  /-- `pmd_is_migration_entry`. -/
  pmdIsMigration : U64 → Bool
  /-- What `ptep_modify_prot_start` finds in the entry of a page, which the hardware may have
  changed since it was read. -/
  modifyProtStart : (page : ℕ) → (pte : U64) → U64
  /-- What `pmdp_invalidate` finds in an entry. -/
  pmdpInvalidate : U64 → U64

namespace ClearRefs

variable (k : ClearFacts)

/-- `pte_is_pinned`. -/
def pteIsPinned (vma : MapsVma) (page : ℕ) (pte : U64) : Bool :=
  if !pteWrite pte then false
  else if !k.isCowMapping vma.vmFlags then false
  else if !k.hasPinned then false
  else
    match k.vmNormalPage vma page pte with
    | none => false
    | some p => k.maybeDmaPinned p

/-- `clear_soft_dirty`. -/
def clearSoftDirty (vma : MapsVma) (page : ℕ) (pte : U64) : U64 :=
  if !k.supportsSoftDirty then pte
  else if pteNone pte then pte
  else if ptePresent pte then
    -- a fault on a pinned page would copy it away from the device
    if pteIsPinned k vma page pte then pte
    else pteClearSoftDirty (pteWrprotect (k.modifyProtStart page pte))
  else pteSwpClearSoftDirty pte

/-- `clear_soft_dirty_pmd`. -/
def clearSoftDirtyPmd (pmd : U64) : U64 :=
  if !k.supportsSoftDirty then pmd
  else if pmdPresent pmd then
    let old := k.pmdpInvalidate pmd
    let pmd := if pmdDirty old then pmdMkdirty pmd else pmd
    let pmd := if pmdYoung old then pmdMkyoung pmd else pmd
    pmdClearSoftDirty (pmdWrprotect pmd)
  else if k.pmdIsMigration pmd then pmdSwpClearSoftDirty pmd
  else pmd

/-- `clear_refs_pte_range`, for what it is called for: the entries of the pages from `lo` to `hi`
are changed. There is no callback for holes and for pages of hugetlbfs. -/
def clearRefsPteRange (vma : MapsVma) (mapping : ℕ → Mapping) : Call → ℕ → Mapping
  | .table _ lo hi ptes => fun page =>
    if lo ≤ page ∧ page < hi then .pte (clearSoftDirty k vma page (ptes page)) else mapping page
  | .thp _ lo hi pmd => fun page =>
    if lo ≤ page ∧ page < hi then .thp (clearSoftDirtyPmd k pmd) else mapping page
  | _ => mapping

/-- `clear_refs_test_walk`: the VMA is walked. -/
def testWalk (vma : MapsVma) : Bool := vma.vmFlags &&& vmPfnmap == 0

/-- The walk over an area. -/
def walkArea (mapping : ℕ → Mapping) (area : PagemapScan.Area) : ℕ → Mapping :=
  match area.vma with
  | none => mapping
  | some vma =>
    if testWalk vma then area.calls.foldl (clearRefsPteRange k vma) mapping else mapping

/-- The round of a VMA in the loop of `clear_refs_write`. -/
def clearVma (vma : MapsVma) : MapsVma :=
  { vma with
    vmFlags :=
      if vma.vmFlags &&& vmSoftdirty = 0 then vma.vmFlags else vma.vmFlags &&& ~~~vmSoftdirty }

/-- The loop over the VMAs of `clear_refs_write`. -/
def clearVmas (a : AddressSpace) : AddressSpace where
  vmas := a.vmas.map clearVma
  ordered :=
    { nonempty := List.forall_mem_map.mpr a.ordered.nonempty
      sorted := List.pairwise_map.mpr a.ordered.sorted }
  user := List.forall_mem_map.mpr a.user
  aligned := List.forall_mem_map.mpr a.aligned
  mapping := a.mapping

/-- `clear_refs_write`, for `CLEAR_REFS_SOFT_DIRTY`. `areas` are those of the walk. -/
def clearRefsWrite (a : AddressSpace) (areas : List PagemapScan.Area) : AddressSpace :=
  { clearVmas a with mapping := areas.foldl (walkArea k) a.mapping }

/-! ## What becomes of the entries -/

/-- What becomes of what is mapped at a page of a VMA that is walked. -/
def clearMapping (vma : MapsVma) (page : ℕ) : Mapping → Mapping
  | .pte pte => .pte (clearSoftDirty k vma page pte)
  | .thp pmd => .thp (clearSoftDirtyPmd k pmd)
  | mapping => mapping

/-- What becomes of what is mapped at a page. -/
def cleared (a : AddressSpace) (page : ℕ) : Mapping :=
  match a.vmaAt page with
  | none => a.mapping page
  | some vma =>
    if testWalk vma then clearMapping k vma page (a.mapping page) else a.mapping page

/-- A change that clears the pages from `lo` to `hi`, and no others, where these are still as they
were. -/
def Clears (a : AddressSpace) (lo hi : ℕ) (f : (ℕ → Mapping) → ℕ → Mapping) : Prop :=
  lo ≤ hi ∧ ∀ m : ℕ → Mapping, (∀ page, lo ≤ page → page < hi → m page = a.mapping page) →
    ∀ page, f m page = if lo ≤ page ∧ page < hi then cleared k a page else m page

variable {k} {a : AddressSpace} {lo mid hi : ℕ} {vma : MapsVma}

/-- Nothing is left to do. -/
theorem clears_nil (lo : ℕ) : Clears k a lo lo id := by
  refine ⟨le_rfl, fun m _ page => ?_⟩
  rw [if_neg (by omega)]
  rfl

/-- Pages for which there is nothing to do. -/
theorem clears_id (h : lo ≤ mid)
    (hsame : ∀ page, lo ≤ page → page < mid → a.mapping page = cleared k a page) :
    Clears k a lo mid id := by
  refine ⟨h, fun m hm page => ?_⟩
  split_ifs with hin
  · exact (hm page hin.1 hin.2).trans (hsame page hin.1 hin.2)
  · rfl

/-- The pages up to `mid`, and then those from there on. -/
theorem Clears.comp {f g : (ℕ → Mapping) → ℕ → Mapping} (hf : Clears k a lo mid f)
    (hg : Clears k a mid hi g) : Clears k a lo hi (g ∘ f) := by
  obtain ⟨hlo, hfirst⟩ := hf
  obtain ⟨hhi, hrest⟩ := hg
  refine ⟨hlo.trans hhi, fun m hm page => ?_⟩
  have hfirst := hfirst m fun page h1 h2 => hm page h1 (by omega)
  -- the pages from `mid` on are not touched before
  have hkeep : ∀ page, mid ≤ page → page < hi → f m page = a.mapping page := by
    intro page h1 h2
    rw [hfirst, if_neg (by omega), hm page (by omega) h2]
  show g (f m) page = _
  rw [hrest (f m) hkeep, hfirst]
  split_ifs <;> first | rfl | omega

/-- What becomes of the pages of a VMA that is walked. -/
theorem cleared_of_vmaAt {page : ℕ} (hvma : a.vmaAt page = some vma) (htest : testWalk vma = true) :
    cleared k a page = clearMapping k vma page (a.mapping page) := by
  unfold cleared
  rw [hvma]
  exact if_pos htest

/-- The calls for a VMA clear its pages. -/
theorem clears_calls {calls : List Call} (hwalks : Walks a hi lo calls)
    (hvma : ∀ page, lo ≤ page → page < hi → a.vmaAt page = some vma)
    (htest : testWalk vma = true) :
    Clears k a lo hi fun m => calls.foldl (clearRefsPteRange k vma) m := by
  -- the VMA is none with `VM_PFNMAP`, so that the walk meets what is mapped
  have hmet {page : ℕ} (hpage : a.vmaAt page = some vma) : a.met page = a.mapping page :=
    AddressSpace.met_of_vmaAt hpage (beq_iff_eq.mp htest)
  induction hwalks with
  | done => exact clears_nil hi
  | again _ ih => exact ih hvma
  | @hole lo mid calls hlt hle hmapping _ ih =>
    have hrest := ih fun page h1 h2 => hvma page (by omega) h2
    refine (clears_id hlt.le fun page h1 h2 => ?_).comp hrest
    have hpage := hvma page h1 (by omega)
    rw [cleared_of_vmaAt hpage htest, ← hmet hpage, hmapping page h1 h2]
    rfl
  | @table lo mid calls vma' ptes hlt hle hmaps _ ih =>
    have hrest := ih fun page h1 h2 => hvma page (by omega) h2
    have hfirst : Clears k a lo mid (clearRefsPteRange k vma · (.table vma' lo mid ptes)) := by
      refine ⟨hlt.le, fun m _ page => ite_congr rfl (fun hin => ?_) fun _ => rfl⟩
      have hpage := hvma page hin.1 (by omega)
      rw [cleared_of_vmaAt hpage htest, ← hmet hpage, (hmaps page hin.1 hin.2).2]
      rfl
    exact hfirst.comp hrest
  | @thp lo mid calls vma' pmd hlt hle _ hmaps _ ih =>
    have hrest := ih fun page h1 h2 => hvma page (by omega) h2
    have hfirst : Clears k a lo mid (clearRefsPteRange k vma · (.thp vma' lo mid pmd)) := by
      refine ⟨hlt.le, fun m _ page => ite_congr rfl (fun hin => ?_) fun _ => rfl⟩
      have hpage := hvma page hin.1 (by omega)
      rw [cleared_of_vmaAt hpage htest, ← hmet hpage, (hmaps page hin.1 hin.2).2]
      rfl
    exact hfirst.comp hrest
  | @hugetlb lo mid size calls vma' pte shared hlt hle _ hmaps _ ih =>
    have hrest := ih fun page h1 h2 => hvma page (by omega) h2
    refine (clears_id hlt.le fun page h1 h2 => ?_).comp hrest
    have hpage := hvma page h1 (by omega)
    rw [cleared_of_vmaAt hpage htest, ← hmet hpage, (hmaps page h1 h2).2]
    rfl

/-- The walk clears the pages that it goes over. -/
theorem clears_areas {areas : List PagemapScan.Area} (hareas : PagemapScan.Areas a hi lo areas) :
    Clears k a lo hi fun m => areas.foldl (walkArea k) m := by
  induction hareas with
  | done => exact clears_nil hi
  | @gap lo mid areas hlo hle hnone _ ih =>
    refine (clears_id hlo fun page h1 h2 => ?_).comp ih
    rw [cleared, hnone page h1 h2]
  | @vma lo mid areas vma calls hlo hle hvma hwalks _ ih =>
    have hfirst : Clears k a lo mid (walkArea k · ⟨some vma, calls⟩) := by
      by_cases htest : testWalk vma = true
      · have hcalls := clears_calls (k := k) hwalks hvma htest
        refine ⟨hlo, fun m hm page => ?_⟩
        rw [← hcalls.2 m hm page]
        exact congrFun (if_pos htest) page
      · have hstay : Clears k a lo mid id := clears_id hlo fun page h1 h2 => by
          rw [cleared, hvma page h1 h2]
          exact (if_neg htest).symm
        refine ⟨hlo, fun m hm page => ?_⟩
        rw [← hstay.2 m hm page]
        exact congrFun (if_neg htest) page
    exact hfirst.comp ih

/-- What is mapped after `clear_refs_write`: the pages below the end of the walk are cleared. -/
theorem mapping_clearRefsWrite {areas : List PagemapScan.Area} {stop : ℕ}
    (hareas : PagemapScan.Areas (clearVmas a) stop 0 areas) (page : ℕ) :
    (clearRefsWrite k a areas).mapping page =
      if page < stop then cleared k (clearVmas a) page else a.mapping page := by
  have hwalk := (clears_areas (k := k) hareas).2 a.mapping (fun _ _ _ => rfl) page
  simp only [Nat.zero_le, true_and] at hwalk
  exact hwalk

/-- `clear_refs_write` changes what is mapped at the pages of the VMAs that are walked, up to the
end of the walk, as `clear_refs_pte_range` does, and at no other page. -/
theorem clearRefsWrite_changes {areas : List PagemapScan.Area} {stop : ℕ}
    (hareas : PagemapScan.Areas (clearVmas a) stop 0 areas) :
    let after := clearRefsWrite k a areas
    (∀ page < stop, ∀ vma, (clearVmas a).vmaAt page = some vma → testWalk vma = true →
      after.mapping page = clearMapping k vma page (a.mapping page)) ∧
    ∀ page, (stop ≤ page ∨ ∀ vma, (clearVmas a).vmaAt page = some vma → testWalk vma = false) →
      after.mapping page = a.mapping page := by
  refine ⟨fun page hpage vma hvma htest => ?_, fun page hpage => ?_⟩
  · rw [mapping_clearRefsWrite hareas, if_pos hpage, cleared_of_vmaAt hvma htest]
    rfl
  · rw [mapping_clearRefsWrite hareas]
    rcases hpage with hpage | hnone
    · exact if_neg (not_lt.mpr hpage)
    · have hcleared : cleared k (clearVmas a) page = a.mapping page := by
        unfold cleared
        cases hvma : (clearVmas a).vmaAt page with
        | none => rfl
        | some vma =>
          refine if_neg ?_
          rw [hnone vma hvma]
          exact Bool.false_ne_true
      rw [hcleared, ite_self]

/-- Pages of which nothing is known. -/
def demoFacts : ClearFacts where
  toPageFacts := PagemapRead.demoFacts
  supportsSoftDirty := true
  isCowMapping _ := true
  hasPinned := false
  maybeDmaPinned _ := false
  pmdIsMigration _ := false
  modifyProtStart _ pte := pte
  pmdpInvalidate pmd := pmd

/-- An address space with a page at 0x1000 that is soft-dirty. -/
def demoSpace : AddressSpace :=
  { PagemapRead.demoSpace with mapping := fun page => if page = 1 then .pte 0x5867 else .hole }

/-- Its areas, page by page. -/
def demoAreas : List PagemapScan.Area :=
  (List.range' 0 16).map (PagemapScan.areaOf (clearVmas demoSpace))

/-- They are those of a walk. -/
theorem areas_demoAreas : PagemapScan.Areas (clearVmas demoSpace) 16 0 demoAreas := by
  refine PagemapScan.areas_areaOf (fun page hnone => ?_) (Nat.zero_le 16)
  have hone : page ≠ 1 := by
    rintro rfl
    exact absurd hnone (by decide)
  exact if_neg hone

/-- `clearRefsWrite_changes`, for the first 16 pages. -/
theorem clearRefsWrite_changes_demo :
    let after := clearRefsWrite demoFacts demoSpace demoAreas
    (∀ page < 16, ∀ vma, (clearVmas demoSpace).vmaAt page = some vma → testWalk vma = true →
      after.mapping page = clearMapping demoFacts vma page (demoSpace.mapping page)) ∧
    ∀ page, (16 ≤ page ∨ ∀ vma, (clearVmas demoSpace).vmaAt page = some vma →
      testWalk vma = false) → after.mapping page = demoSpace.mapping page :=
  clearRefsWrite_changes areas_demoAreas

/-! ## What the pagemap says afterwards -/

/-- The tracker is ready for an entry: it is empty, or it is write-protected and does not say that
the page is soft-dirty. The bit 1 of a swap entry is its soft-dirty bit. -/
def Rearmed (present : Bool) (e : U64) : Prop :=
  pteNone e = true ∨ (present = true → e.getLsbD 11 = false) ∧ e.getLsbD 1 = false

/-- An entry stays where it is. -/
theorem samePlace_clearSoftDirty {page : ℕ} {pte : U64}
    (hhw : SamePlace pte (k.modifyProtStart page pte)) :
    SamePlace pte (clearSoftDirty k vma page pte) := by
  have hwrprotect (x : U64) : SamePlace x (pteClearSoftDirty (pteWrprotect x)) :=
    ((samePlace_clear (by decide) x).trans (samePlace_mksaveddirtyShift _)).trans
      (samePlace_clear (by decide) _)
  unfold clearSoftDirty
  split_ifs
  · rfl
  · rfl
  · rfl
  · exact hhw.trans (hwrprotect _)
  · exact samePlace_clear (by decide) pte

/-- Through an entry for which the tracker is ready the hardware does not write. -/
theorem Rearmed.hwStore {present : Bool} {e : U64} (h : Rearmed present e) : hwStore e = e := by
  unfold KernelPortfolio.hwStore
  rw [if_neg]
  rintro ⟨hp, hrw⟩
  rcases h with hnone | ⟨-, h1⟩
  · -- the hardware writes only through an entry that is present, which an empty one is not
    have hbit := ptePresent_of_pteNone hnone
    have h0 : e.getLsbD 0 = true := by
      by_contra h0
      rw [Bool.not_eq_true] at h0
      exact hp ((BitField.and_twoPow_eq_zero_iff e (by decide)).mpr h0)
    rw [(ptePresent_iff e).mpr (.inl h0)] at hbit
    exact absurd hbit (by decide)
  · rw [and_pageRw_ne_zero_iff, h1] at hrw
    exact absurd hrw Bool.false_ne_true

/-- A page that is present stays so, and in its frame. -/
theorem presentWord_clearRefsWrite (showPfn : Bool) {areas : List PagemapScan.Area} {stop page : ℕ}
    {pte : U64} (hareas : PagemapScan.Areas (clearVmas a) stop 0 areas) (hpage : page < stop)
    (hvma : (clearVmas a).vmaAt page = some vma) (htest : testWalk vma = true)
    (hmap : a.mapping page = .pte pte) (hpresent : ptePresent pte = true)
    (hhw : SamePlace pte (k.modifyProtStart page pte)) :
    PresentWord showPfn (ptePfn pte)
      (entryOf k.toPageFacts showPfn (clearRefsWrite k a areas) page) := by
  have hplace : SamePlace pte (clearSoftDirty k vma page pte) :=
    samePlace_clearSoftDirty hhw
  have hmapping : (clearRefsWrite k a areas).mapping page =
      .pte (clearSoftDirty k vma page pte) := by
    rw [mapping_clearRefsWrite hareas, if_pos hpage, cleared_of_vmaAt hvma htest]
    exact congrArg (clearMapping k vma page) hmap
  have hpresent' : ptePresent (clearSoftDirty k vma page pte) = true :=
    (ptePresent_of_samePlace hplace).trans hpresent
  have hnone : ¬ pteNone (clearSoftDirty k vma page pte) = true := by
    intro hnone
    rw [ptePresent_of_pteNone hnone] at hpresent'
    exact absurd hpresent' Bool.false_ne_true
  have hvma' : (clearRefsWrite k a areas).vmaAt page = some vma := hvma
  unfold entryOf
  rw [hvma', AddressSpace.met_of_vmaAt hvma' (beq_iff_eq.mp htest), hmapping,
    ← ptePfn_of_samePlace hplace hpresent]
  exact presentWord_pte vma page hnone hpresent'

end ClearRefs

end KernelPortfolio
