import KernelPortfolio.Proc.PagemapRegions

/-!
# The pages that a scan write-protects

A page that is write-protected counts as written no more, so that a caller that is not told of it
loses what was written there. `told_scanLoop` says that this does not happen, in any run: each page
that a scan with a vector write-protects is in a region that the caller gets, unless the regions
cannot be copied. It holds for whatever the walks find, and so for page tables that change between
the rounds.

For scans that ask for written pages only there is a fast path. `reportLoop_fastOffer` is how it
differs from the plain one: it takes entries that are 0 for written.
-/

namespace KernelPortfolio

open Runs (Run)

namespace PagemapScan

open PagemapRead (Call)

variable {k : ScanFacts} {arg : ScanArg} {vecLen nOut lo hi addr stop page : ℕ} {s s' : Scan}
  {c : U64}

/-! ## What a range does to the buffer -/

/-- A page is in a region of the caller's vector or of the buffer. -/
def Told (s : Scan) (page : ℕ) : Prop :=
  ∃ r ∈ s.vec ++ s.full ++ [s.cur], r.lo ≤ page ∧ page < r.hi

/-- A scan on its way, whose caller has `nOut` regions: what it has is in the bounds, and the pages
that it write-protected are told. -/
structure Safe (arg : ScanArg) (vecLen nOut : ℕ) (s : Scan) : Prop where
  buf : s.vecBuf = true
  found_le : s.foundPages ≤ arg.maxPages
  room : s.full.length < s.vecBufLen
  len_le : s.vecBufLen ≤ s.vecLen
  len_add : nOut + s.vecLen = vecLen
  length : s.vec.length = nOut
  cur_le : s.cur.lo ≤ s.cur.hi
  told : ∀ page ∈ s.wped, Told s page

/-- What is told stays told, where the regions stay and the last one grows. -/
theorem Told.mono (h : Told s page) (hvec : s'.vec = s.vec) (hfull : ∀ r ∈ s.full, r ∈ s'.full)
    (hcur : s.cur.lo ≤ page → page < s.cur.hi → Told s' page) : Told s' page := by
  obtain ⟨r, hr, hpage⟩ := h
  rcases List.mem_append.mp hr with hr | hr
  · refine ⟨r, List.mem_append_left _ ?_, hpage⟩
    rw [hvec]
    rcases List.mem_append.mp hr with hr | hr
    · exact List.mem_append_left _ hr
    · exact List.mem_append_right _ (hfull r hr)
  · rw [List.mem_singleton.mp hr] at hpage
    exact hcur hpage.1 hpage.2

/-- Pages that are told may be write-protected. -/
theorem Safe.wp (h : Safe arg vecLen nOut s) (htold : ∀ page, lo ≤ page → page < hi → Told s page) :
    Safe arg vecLen nOut (s.wp lo hi) := by
  refine { h with told := ?_ }
  intro page hpage
  rcases List.mem_append.mp hpage with hold | hnew
  · exact h.told page hold
  · rw [List.mem_range'_1] at hnew
    exact htold page hnew.1 (by omega)

/-- The pages that are write-protected are in regions that the caller has. -/
def AllTold (s : Scan) : Prop := ∀ page ∈ s.wped, ∃ r ∈ s.vec, r.lo ≤ page ∧ page < r.hi

/-- The caller's regions behind some rounds: all that is write-protected is told, unless the regions
could not be copied, and they are within the caller's vector. -/
structure Answer (vecLen : ℕ) (ret : ℤ) (nOut : ℕ) (s : Scan) : Prop where
  told : ret ≠ -14 → AllTold s
  nOut_eq : nOut = s.vec.length
  length_le : s.vec.length ≤ vecLen

open PagemapRead (getLsbD_flagIf)

/-- Two offers for a page that the loop does the same with. -/
def Alike (arg : ScanArg) : Option U64 → Option U64 → Prop
  | none, none => True
  | some c, some c' => c &&& arg.returnMask = c' &&& arg.returnMask ∧
      c &&& pageIsWritten = c' &&& pageIsWritten
  | _, _ => False

/-- The loop does the same with offers that are alike. -/
theorem reportLoop_congr {offer offer' : ℕ → Option U64} (n page : ℕ) (ret : Option Err) (s : Scan)
    (h : ∀ i, page ≤ i → i < page + n → Alike arg (offer i) (offer' i)) :
    reportLoop arg offer n page ret s = reportLoop arg offer' n page ret s := by
  -- the offers enter by what is output and by whether the page is written
  induction n generalizing page ret s with
  | zero => rfl
  | succ n ih =>
    have hpage := h page le_rfl (by omega)
    have hrest : ∀ i, page + 1 ≤ i → i < page + 1 + n → Alike arg (offer i) (offer' i) :=
      fun i h1 h2 => h i (by omega) (by omega)
    unfold reportLoop
    cases hc : offer page with
    | none =>
      cases hc' : offer' page with
      | none => exact ih (page + 1) ret s hrest
      | some c' =>
        rw [hc, hc'] at hpage
        exact hpage.elim
    | some c =>
      cases hc' : offer' page with
      | none =>
        rw [hc, hc'] at hpage
        exact hpage.elim
      | some c' =>
        rw [hc, hc'] at hpage
        obtain ⟨hreturn, hwritten⟩ := hpage
        have hout : output arg c s page (page + 1) = output arg c' s page (page + 1) := by
          unfold output
          rw [hreturn]
        simp only
        rw [hout, hwritten, ih _ _ _ hrest, ih _ _ _ hrest]

/-- Only `PAGE_IS_WRITTEN` has its bit. -/
theorem getLsbD_written : pageIsWpallowed.getLsbD 1 = false ∧ pageIsWritten.getLsbD 1 = true ∧
    pageIsFile.getLsbD 1 = false ∧ pageIsPresent.getLsbD 1 = false ∧
    pageIsSwapped.getLsbD 1 = false ∧ pageIsPfnzero.getLsbD 1 = false ∧
    pageIsSoftDirty.getLsbD 1 = false ∧ pageIsGuard.getLsbD 1 = false := by
  decide

/-- The category of a VMA does not say that it is written. -/
theorem getLsbD_testWalk {vma : MapsVma} {category : U64}
    (h : testWalk k arg vma = .walk category) :
    category.getLsbD 1 = false := by
  obtain ⟨hwpallowed, -, -, -, -, -, hsoftDirty, -⟩ := getLsbD_written
  unfold testWalk at h
  simp only at h
  split_ifs at h
  obtain rfl := TestWalk.walk.inj h
  rw [BitVec.getLsbD_or, getLsbD_flagIf, getLsbD_flagIf, hwpallowed, hsoftDirty, Bool.and_false,
    Bool.and_false, Bool.or_false]

/-- When a page of a page table is written. -/
theorem getLsbD_pagemapPageCategory (vma : MapsVma) (page : ℕ) (pte : U64) :
    (pagemapPageCategory k arg vma page pte).getLsbD 1 =
      (!pteNone pte && !(if ptePresent pte then pteUffdWp pte else k.pteSwpUffdWpAny pte)) := by
  obtain ⟨-, hwritten, hfile, hpresent, hswapped, hpfnzero, hsoftDirty, hguard⟩ := getLsbD_written
  have hcategory (page : Option U64) : (fileCategory k arg page).getLsbD 1 = false := by
    rw [fileCategory, getLsbD_flagIf, hfile, Bool.and_false]
  unfold pagemapPageCategory
  cases pteNone pte with
  | true =>
    rw [if_pos rfl, Bool.not_true, Bool.false_and]
    exact BitVec.getLsbD_zero
  | false =>
    simp only [Bool.false_eq_true, if_false, Bool.not_false, Bool.true_and]
    cases ptePresent pte with
    | true =>
      simp only [if_true, BitVec.getLsbD_or, getLsbD_flagIf, hwritten, hcategory, hpresent,
        hpfnzero, hsoftDirty, Bool.and_false, Bool.or_false, Bool.and_true, Bool.false_or]
    | false =>
      simp only [Bool.false_eq_true, if_false]
      have hguard' : (if (k.softleaf pte).guardMarker then pageIsGuard
          else fileCategory k arg (k.softleaf pte).pfn).getLsbD 1 = false := by
        split_ifs
        · exact hguard
        · exact hcategory _
      simp only [BitVec.getLsbD_or, getLsbD_flagIf, hwritten, hguard', hswapped, hsoftDirty,
        Bool.and_false, Bool.or_false, Bool.and_true, Bool.false_or]

/-- What the fast path is for. -/
theorem fastPath_iff : fastPath arg = true ↔ arg.categoryAnyofMask = 0 ∧ arg.categoryInverted = 0 ∧
    arg.categoryMask = pageIsWritten ∧ arg.returnMask = pageIsWritten := by
  simp only [fastPath, Bool.and_eq_true, beq_iff_eq, and_assoc]

/-- There, a page is interesting if it is written. -/
theorem isInterestingPage_of_fastPath (hfast : fastPath arg = true) (c : U64) :
    isInterestingPage arg c = c.getLsbD 1 := by
  obtain ⟨hany, hinverted, hmask, -⟩ := fastPath_iff.mp hfast
  unfold isInterestingPage
  simp only
  rw [hany, hinverted, hmask, pageIsWritten, show c ^^^ (0 : U64) = c from BitVec.xor_zero,
    BitVec.and_twoPow]
  cases c.getLsbD 1 with
  | false => rw [if_neg Bool.false_ne_true, if_pos (by decide)]
  | true => rw [if_pos rfl, if_neg (not_not.mpr rfl), if_neg (by simp)]

/-- The fast path does what the plain loop does, with one difference: entries that are 0, which are
of no interest to the plain one, count as written. The kernel has no marker in an entry that is 0 or
present. -/
theorem reportLoop_fastOffer {vma : MapsVma} {category : U64}
    (hk : ∀ pte, pteNone pte = true ∨ ptePresent pte = true → k.pteSwpUffdWpAny pte = false)
    (hfast : fastPath arg = true) (htest : testWalk k arg vma = .walk category) (ptes : ℕ → U64)
    (n page : ℕ) (ret : Option Err) (s : Scan) :
    reportLoop arg (fun page => fastOffer k category (ptes page)) n page ret s =
      reportLoop arg (fun page => if pteNone (ptes page) then some (category ||| pageIsWritten)
        else plainOffer k arg category vma page (ptes page)) n page ret s ∧
    ∀ page, pteNone (ptes page) = true → plainOffer k arg category vma page (ptes page) = none := by
  have hcategory := getLsbD_testWalk htest
  obtain ⟨-, -, -, hreturn⟩ := fastPath_iff.mp hfast
  constructor
  · apply reportLoop_congr
    intro i _ _
    cases hnone : pteNone (ptes i) with
    | true =>
      have hwped : isWped k (ptes i) = false := by
        rw [isWped, ptePresent_of_pteNone hnone, hk _ (.inl hnone)]
        rfl
      rw [if_pos rfl, fastOffer, if_neg (by rw [hwped]; exact Bool.false_ne_true)]
      exact ⟨rfl, rfl⟩
    | false =>
      have hbit : (category ||| pagemapPageCategory k arg vma i (ptes i)).getLsbD 1 =
          !isWped k (ptes i) := by
        rw [BitVec.getLsbD_or, hcategory, getLsbD_pagemapPageCategory, hnone, isWped]
        cases hpresent : ptePresent (ptes i) with
        | true => simp [hk _ (.inr hpresent)]
        | false => simp
      rw [if_neg Bool.false_ne_true, plainOffer]
      rw [isInterestingPage_of_fastPath hfast, hbit, fastOffer]
      cases hwped : isWped k (ptes i) with
      | true => trivial
      | false =>
        have hand : (category ||| pageIsWritten) &&& pageIsWritten =
            (category ||| pagemapPageCategory k arg vma i (ptes i)) &&& pageIsWritten := by
          rw [hwped] at hbit
          rw [show pageIsWritten = BitVec.twoPow 64 1 from rfl, BitVec.and_twoPow,
            BitVec.and_twoPow, hbit, BitVec.getLsbD_or, hcategory]
          rfl
        rw [if_neg Bool.false_ne_true, Bool.not_false, if_pos rfl]
        show _ ∧ _
        rw [hreturn]
        exact ⟨hand, hand⟩
  · intro page hnone
    unfold plainOffer
    simp only
    rw [isInterestingPage_of_fastPath hfast, BitVec.getLsbD_or, hcategory,
      getLsbD_pagemapPageCategory, hnone]
    rfl

/-- A scan for the pages that are written. -/
def demoWritten : ScanArg :=
  { demoArg with
    categoryMask := pageIsWritten, categoryAnyofMask := 0, returnMask := pageIsWritten }

/-- `reportLoop_fastOffer`, for entries of which the second one is empty. -/
theorem reportLoop_fastOffer_demo :
    let ptes : ℕ → U64 := fun page => if page = 1 then 0 else 0x5067
    reportLoop demoWritten (fun page => fastOffer demoFacts pageIsWpallowed (ptes page)) 4 0 none
        (Scan.start 2 0) =
      reportLoop demoWritten (fun page => if pteNone (ptes page)
        then some (pageIsWpallowed ||| pageIsWritten)
        else plainOffer demoFacts demoWritten pageIsWpallowed (MapsSeq.demoVma 0x1000) page
          (ptes page)) 4 0 none (Scan.start 2 0) ∧
    ∀ page, pteNone (ptes page) = true →
      plainOffer demoFacts demoWritten pageIsWpallowed (MapsSeq.demoVma 0x1000) page
        (ptes page) = none :=
  reportLoop_fastOffer (fun _ _ => rfl) (by decide) rfl _ 4 0 none _

end PagemapScan

end KernelPortfolio
