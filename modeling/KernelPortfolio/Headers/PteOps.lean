import KernelPortfolio.Headers.SoftBits
import KernelPortfolio.Lib.Schedule

/-!
# What is done to entries that are present

The helpers of `pgtable.h` that change an entry of the last level, and what the hardware does to the
entry when the page is used. An entry that is not writable but has the hardware's Dirty bit is one
of a shadow stack, so the helpers that take the write permission away move that bit to a software
bit, `_PAGE_SAVED_DIRTY`, and those that give it move it back.

`foldl_sound` says what holds in every run of them: the frame stays, no entry becomes one of a
shadow stack but by `pte_mkwrite_shstk`, and a write is not forgotten before `pte_mkclean`.
`ptep_set_wrprotect` has to do its change while the hardware is at work; `mem_exec` says that its
loop is one step among those of the hardware, and `setWrprotect_exec` what follows for it, and that
it needs no more than four turns.
-/

namespace KernelPortfolio

/-- `_PAGE_GLOBAL`, of an entry with `_PAGE_PRESENT`. -/
def pageGlobal : U64 := .twoPow 64 8

/-- `_PAGE_SPECIAL`. -/
def pageSpecial : U64 := .twoPow 64 9

/-- `_PAGE_DEVMAP`. -/
def pageDevmap : U64 := .twoPow 64 57

/-- `_PAGE_SAVED_DIRTY`. -/
def pageSavedDirty : U64 := .twoPow 64 58

/-- `_PAGE_DIRTY_BITS`. -/
def pageDirtyBits : U64 := pageDirty ||| pageSavedDirty

/-- `_PAGE_CHG_MASK`, without memory encryption: the frame, `_PAGE_PCD`, `_PAGE_PWT`,
`_PAGE_SPECIAL`, `_PAGE_ACCESSED`, `_PAGE_DIRTY_BITS`, `_PAGE_SOFT_DIRTY`, `_PAGE_DEVMAP`,
`_PAGE_UFFD_WP` and `_PAGE_PAT`. -/
def pageChgMask : U64 :=
  ptePfnMask ||| .twoPow 64 4 ||| .twoPow 64 3 ||| pageSpecial ||| pageAccessed |||
    pageDirtyBits ||| pageSoftDirty ||| pageDevmap ||| pageUffdWp ||| .twoPow 64 7

/-! ## The helpers -/

/-- `pte_dirty`. -/
def pteDirty (pte : U64) : Bool := pteFlags pte &&& pageDirtyBits != 0

/-- `pte_young`. -/
def pteYoung (pte : U64) : Bool := pteFlags pte &&& pageAccessed != 0

/-- `pmd_dirty`. -/
def pmdDirty (pmd : U64) : Bool := pmdFlags pmd &&& pageDirtyBits != 0

/-- `pmd_young`. -/
def pmdYoung (pmd : U64) : Bool := pmdFlags pmd &&& pageAccessed != 0

/-- `pte_shstk`. The processor has shadow stacks. -/
def pteShstk (pte : U64) : Bool := pteFlags pte &&& (pageRw ||| pageDirty) == pageDirty

/-- `pte_write`. -/
def pteWrite (pte : U64) : Bool := pteFlags pte &&& pageRw != 0 || pteShstk pte

/-- `pte_set_flags`. -/
def pteSetFlags (pte set : U64) : U64 := pte ||| set

/-- `pte_clear_flags`. -/
def pteClearFlags (pte clear : U64) : U64 := pte &&& ~~~clear

/-- `mksaveddirty_shift`, which is what `pte_mksaveddirty` does. -/
def mksaveddirtyShift (v : U64) : U64 :=
  let cond := (~~~v >>> 1) &&& 1
  let v := v ||| (((v >>> 6) &&& cond) <<< 58)
  v &&& ~~~(cond <<< 6)

/-- `clear_saveddirty_shift`, which is what `pte_clear_saveddirty` does. -/
def clearSaveddirtyShift (v : U64) : U64 :=
  let cond := (v >>> 1) &&& 1
  let v := v ||| (((v >>> 58) &&& cond) <<< 6)
  v &&& ~~~(cond <<< 58)

/-- `pte_wrprotect`. -/
def pteWrprotect (pte : U64) : U64 := mksaveddirtyShift (pteClearFlags pte pageRw)

/-- `pte_mkuffd_wp`. -/
def pteMkuffdWp (pte : U64) : U64 := pteWrprotect (pteSetFlags pte pageUffdWp)

/-- `pte_clear_uffd_wp`. -/
def pteClearUffdWp (pte : U64) : U64 := pteClearFlags pte pageUffdWp

/-- `pte_mkclean`. -/
def pteMkclean (pte : U64) : U64 := pteClearFlags pte pageDirtyBits

/-- `pte_mkold`. -/
def pteMkold (pte : U64) : U64 := pteClearFlags pte pageAccessed

/-- `pte_mkexec`. -/
def pteMkexec (pte : U64) : U64 := pteClearFlags pte pageNx

/-- `pte_mkdirty`. -/
def pteMkdirty (pte : U64) : U64 :=
  mksaveddirtyShift (pteSetFlags pte (pageDirty ||| pageSoftDirty))

/-- `pte_mkwrite_shstk`. -/
def pteMkwriteShstk (pte : U64) : U64 := pteSetFlags (pteClearFlags pte pageRw) pageDirty

/-- `pte_mkyoung`. -/
def pteMkyoung (pte : U64) : U64 := pteSetFlags pte pageAccessed

/-- `pte_mkwrite_novma`. -/
def pteMkwriteNovma (pte : U64) : U64 := pteSetFlags pte pageRw

/-- `pte_mkhuge`. -/
def pteMkhuge (pte : U64) : U64 := pteSetFlags pte pagePse

/-- `pte_clrhuge`. -/
def pteClrhuge (pte : U64) : U64 := pteClearFlags pte pagePse

/-- `pte_mkglobal`. -/
def pteMkglobal (pte : U64) : U64 := pteSetFlags pte pageGlobal

/-- `pte_clrglobal`. -/
def pteClrglobal (pte : U64) : U64 := pteClearFlags pte pageGlobal

/-- `pte_mkspecial`. -/
def pteMkspecial (pte : U64) : U64 := pteSetFlags pte pageSpecial

/-- `pte_mkdevmap`. -/
def pteMkdevmap (pte : U64) : U64 := pteSetFlags pte (pageSpecial ||| pageDevmap)

/-- `pte_mksoft_dirty`. -/
def pteMksoftDirty (pte : U64) : U64 := pteSetFlags pte pageSoftDirty

/-- `pte_clear_soft_dirty`. -/
def pteClearSoftDirty (pte : U64) : U64 := pteClearFlags pte pageSoftDirty

/-- `pte_swp_clear_soft_dirty`. -/
def pteSwpClearSoftDirty (pte : U64) : U64 := pteClearFlags pte pageSwpSoftDirty

/-- `flip_protnone_guard`. -/
def flipProtnoneGuard (oldval val mask : U64) : U64 :=
  if pteNeedsInvert oldval ≠ pteNeedsInvert val then (val &&& ~~~mask) ||| (~~~val &&& mask)
  else val

/-- `massage_pgprot`, which is all that `check_pgprot` does. -/
def massagePgprot (supportedPteMask pgprot : U64) : U64 :=
  if pgprot &&& pagePresent ≠ 0 then pgprot &&& supportedPteMask else pgprot

/-- `pte_modify`. -/
def pteModify (supportedPteMask pte newprot : U64) : U64 :=
  let val := (pte &&& pageChgMask) ||| (massagePgprot supportedPteMask newprot &&& ~~~pageChgMask)
  let val := flipProtnoneGuard pte val ptePfnMask
  if pte &&& pageRw ≠ 0 then mksaveddirtyShift val else clearSaveddirtyShift val

/-! ## Bits -/

variable {e e' m x : U64} {i : ℕ}

/-- A bit of a word, at the place of the lowest one. -/
theorem ushiftRight_and_one (x : U64) (i : ℕ) :
    (x >>> i) &&& 1 = if x.getLsbD i then 1 else 0 := by
  have hbit : (x >>> i).getLsbD 0 = x.getLsbD i := by
    rw [BitVec.getLsbD_ushiftRight, Nat.add_zero]
  rw [← hbit, show (1 : U64) = BitVec.twoPow 64 0 from rfl, BitVec.and_twoPow]
  rfl

/-- A shift without a condition does nothing. -/
theorem shift_zero (x y : U64) (i j : ℕ) :
    (x ||| (y &&& 0) <<< i) &&& ~~~((0 : U64) <<< j) = x := by
  have hand : y &&& (0 : U64) = 0 := BitVec.and_zero
  have hzero (n : ℕ) : (0 : U64) <<< n = 0 := BitVec.zero_shiftLeft n
  have hor : x ||| (0 : U64) = x := BitVec.or_zero
  have hnot : ~~~(0 : U64) = BitVec.allOnes 64 := BitVec.not_zero
  rw [hand, hzero, hzero, hor, hnot, BitVec.and_allOnes]

/-- The Dirty bit of an entry that is writable stays where it is. -/
theorem mksaveddirtyShift_of_rw (h : x.getLsbD 1 = true) : mksaveddirtyShift x = x := by
  have hcond : (~~~x >>> 1) &&& 1 = (0 : U64) := by
    rw [ushiftRight_and_one, BitVec.getLsbD_not, h]
    rfl
  unfold mksaveddirtyShift
  rw [hcond]
  exact shift_zero x (x >>> 6) 58 6

/-- The Dirty bit of an entry that is not writable is moved. -/
theorem mksaveddirtyShift_of_not_rw (h : x.getLsbD 1 = false) :
    mksaveddirtyShift x =
      (x ||| if x.getLsbD 6 then pageSavedDirty else 0) &&& ~~~pageDirty := by
  have hcond : (~~~x >>> 1) &&& 1 = (1 : U64) := by
    rw [ushiftRight_and_one, BitVec.getLsbD_not, h]
    rfl
  unfold mksaveddirtyShift
  rw [hcond]
  dsimp only
  rw [ushiftRight_and_one]
  split_ifs <;> rfl

/-- The saved bit of an entry that is not writable stays where it is. -/
theorem clearSaveddirtyShift_of_not_rw (h : x.getLsbD 1 = false) : clearSaveddirtyShift x = x := by
  have hcond : (x >>> 1) &&& 1 = (0 : U64) := by
    rw [ushiftRight_and_one, h]
    rfl
  unfold clearSaveddirtyShift
  rw [hcond]
  exact shift_zero x (x >>> 58) 6 58

/-- The saved bit of an entry that is writable is moved back. -/
theorem clearSaveddirtyShift_of_rw (h : x.getLsbD 1 = true) :
    clearSaveddirtyShift x =
      (x ||| if x.getLsbD 58 then pageDirty else 0) &&& ~~~pageSavedDirty := by
  have hcond : (x >>> 1) &&& 1 = (1 : U64) := by
    rw [ushiftRight_and_one, h]
    rfl
  unfold clearSaveddirtyShift
  rw [hcond]
  dsimp only
  rw [ushiftRight_and_one]
  split_ifs <;> rfl

/-- A flag that is cleared. -/
theorem getLsbD_pteClearFlags (hi : i < 64) (e m : U64) :
    (pteClearFlags e m).getLsbD i = (e.getLsbD i && !m.getLsbD i) := by
  rw [pteClearFlags, BitVec.getLsbD_and, BitVec.getLsbD_not, decide_eq_true hi, Bool.true_and]

/-- `pte_wrprotect` leaves no write permission. -/
theorem getLsbD_pteWrprotect_rw (x : U64) : (pteWrprotect x).getLsbD 1 = false := by
  have hclear : (pteClearFlags x pageRw).getLsbD 1 = false := by
    rw [getLsbD_pteClearFlags (by decide)]
    exact Bool.and_false _
  rw [pteWrprotect, mksaveddirtyShift_of_not_rw hclear]
  refine (getLsbD_pteClearFlags (by decide) _ _).trans ?_
  rw [BitVec.getLsbD_or, hclear]
  split_ifs <;> rfl

/-- `pte_dirty` is one of two bits. -/
theorem pteDirty_eq (e : U64) : pteDirty e = (e.getLsbD 6 || e.getLsbD 58) := by
  have hmask : ~~~ptePfnMask &&& pageDirtyBits = pageDirtyBits := by decide
  have hsplit : pteFlags e &&& pageDirtyBits = (e &&& pageDirty) ||| (e &&& pageSavedDirty) := by
    unfold pteFlags
    rw [BitVec.and_assoc, hmask]
    ext j hj
    simp only [pageDirtyBits, BitVec.getElem_and, BitVec.getElem_or, Bool.and_or_distrib_left]
  rw [Bool.eq_iff_iff, pteDirty, hsplit, bne_iff_ne, ne_eq]
  have h6 : e &&& pageDirty = 0 ↔ e.getLsbD 6 = false :=
    BitField.and_twoPow_eq_zero_iff e (by decide)
  have h58 : e &&& pageSavedDirty = 0 ↔ e.getLsbD 58 = false :=
    BitField.and_twoPow_eq_zero_iff e (by decide)
  have hor : (e &&& pageDirty) ||| (e &&& pageSavedDirty) = 0 ↔
      e &&& pageDirty = 0 ∧ e &&& pageSavedDirty = 0 := BitVec.or_eq_zero_iff
  rw [hor, h6, h58, not_and_or, Bool.not_eq_false, Bool.not_eq_false, Bool.or_eq_true]

/-- `_PAGE_RW` as a bit. -/
theorem and_pageRw_ne_zero_iff (e : U64) : e &&& pageRw ≠ 0 ↔ e.getLsbD 1 = true := by
  have h : e &&& pageRw = 0 ↔ e.getLsbD 1 = false := BitField.and_twoPow_eq_zero_iff e (by decide)
  rw [ne_eq, h, Bool.not_eq_false]

/-! ## What stays -/

/-- The bits that say whether an entry is present and where its page is. -/
def placeMask : U64 := ptePfnMask ||| pagePresent ||| pageProtnone

/-- Two entries that agree on that. -/
def SamePlace (e e' : U64) : Prop := e' &&& placeMask = e &&& placeMask

/-- Flags that are cleared. -/
theorem samePlace_clear (h : ~~~m &&& placeMask = placeMask) (e : U64) :
    SamePlace e (pteClearFlags e m) := by
  unfold SamePlace pteClearFlags
  rw [BitVec.and_assoc, h]

/-- Flags that are set do not touch the other bits. -/
theorem pteSetFlags_and (h : m &&& x = 0) (e : U64) : pteSetFlags e m &&& x = e &&& x := by
  have hdistrib : (e ||| m) &&& x = (e &&& x) ||| (m &&& x) := by
    ext j hj
    simp only [BitVec.getElem_and, BitVec.getElem_or, Bool.and_or_distrib_right]
  have hor : (e &&& x) ||| (0 : U64) = e &&& x := BitVec.or_zero
  rw [pteSetFlags, hdistrib, h, hor]

/-- Flags that are set. -/
theorem samePlace_set (h : m &&& placeMask = 0) (e : U64) : SamePlace e (pteSetFlags e m) :=
  pteSetFlags_and h e

/-- One change after another. -/
theorem SamePlace.trans (h : SamePlace e e') (h' : SamePlace e' x) : SamePlace e x :=
  Eq.trans h' h

/-- A bit that both agree on. -/
theorem SamePlace.getLsbD (h : SamePlace e e') (hi : placeMask.getLsbD i = true) :
    e'.getLsbD i = e.getLsbD i := by
  have hbit := congrArg (BitVec.getLsbD · i) h
  simp only [BitVec.getLsbD_and, hi, Bool.and_true] at hbit
  exact hbit

/-- The Dirty bit is not in their way. -/
theorem samePlace_mksaveddirtyShift (e : U64) : SamePlace e (mksaveddirtyShift e) := by
  cases h : e.getLsbD 1 with
  | true =>
    rw [mksaveddirtyShift_of_rw h]
    rfl
  | false =>
    rw [mksaveddirtyShift_of_not_rw h]
    refine (samePlace_set (m := if e.getLsbD 6 then pageSavedDirty else 0) ?_ e).trans
      (samePlace_clear (by decide) _)
    split_ifs <;> decide

/-- Nor is the saved one. -/
theorem samePlace_clearSaveddirtyShift (e : U64) : SamePlace e (clearSaveddirtyShift e) := by
  cases h : e.getLsbD 1 with
  | false =>
    rw [clearSaveddirtyShift_of_not_rw h]
    rfl
  | true =>
    rw [clearSaveddirtyShift_of_rw h]
    refine (samePlace_set (m := if e.getLsbD 58 then pageDirty else 0) ?_ e).trans
      (samePlace_clear (by decide) _)
    split_ifs <;> decide

/-- An entry that is present stays so. -/
theorem ptePresent_of_samePlace (h : SamePlace e e') : ptePresent e' = ptePresent e := by
  rw [Bool.eq_iff_iff, ptePresent_iff, ptePresent_iff, h.getLsbD (by decide),
    h.getLsbD (by decide)]

/-- An entry that is present is not 0. -/
theorem ne_zero_of_ptePresent (h : ptePresent e = true) : e ≠ 0 := by
  rintro rfl
  exact absurd h (by decide)

/-- The page of an entry that is present depends on the frame, and on the Present bit, which says
whether the frame is inverted. -/
theorem ptePfn_of_frame (hpresent : ptePresent e = true) (hpresent' : ptePresent e' = true)
    (hbit : e'.getLsbD 0 = e.getLsbD 0) (hframe : e' &&& ptePfnMask = e &&& ptePfnMask) :
    ptePfn e' = ptePfn e := by
  have hnot (y : U64) : ~~~y &&& ptePfnMask = ptePfnMask &&& ~~~(y &&& ptePfnMask) := by
    ext j hj
    simp only [BitVec.getElem_and, BitVec.getElem_not]
    cases y[j] <;> cases ptePfnMask[j] <;> rfl
  unfold ptePfn
  rw [xor_protnoneMask (ne_zero_of_ptePresent hpresent),
    xor_protnoneMask (ne_zero_of_ptePresent hpresent'), hbit]
  split_ifs
  · rw [hframe]
  · rw [hnot, hnot, hframe]

/-- An entry that is present keeps its page. -/
theorem ptePfn_of_samePlace (h : SamePlace e e') (hpresent : ptePresent e = true) :
    ptePfn e' = ptePfn e := by
  have hpfn : ptePfnMask = placeMask &&& ptePfnMask := by decide
  have hsame : e' &&& ptePfnMask = e &&& ptePfnMask := by
    rw [hpfn, ← BitVec.and_assoc, ← BitVec.and_assoc, h]
  exact ptePfn_of_frame hpresent ((ptePresent_of_samePlace h).trans hpresent)
    (h.getLsbD (by decide)) hsame

/-! ## Runs -/

/-- What can happen to an entry that is present: the helpers that change its flags and
`pte_modify`, and what the hardware does. -/
inductive PteAct where
  | wrprotect
  | mkuffdWp
  | clearUffdWp
  | mkclean
  | mkold
  | mkexec
  | mkdirty
  | mkwriteShstk
  | mkyoung
  | mkwriteNovma
  | mksaveddirty
  | clearSaveddirty
  | mkhuge
  | clrhuge
  | mkglobal
  | clrglobal
  | mkspecial
  | mkdevmap
  | mksoftDirty
  | clearSoftDirty
  | modify (supportedPteMask newprot : U64)
  /-- The hardware uses the entry to read. -/
  | load
  /-- The hardware uses it to write, where it may. -/
  | store
  deriving DecidableEq

/-- The hardware's Accessed bit is set where the entry is used. -/
def hwLoad (e : U64) : U64 := if e &&& pagePresent ≠ 0 then e ||| pageAccessed else e

/-- The hardware's Dirty bit is set where the page is written, which needs the write permission. -/
def hwStore (e : U64) : U64 :=
  if e &&& pagePresent ≠ 0 ∧ e &&& pageRw ≠ 0 then e ||| (pageAccessed ||| pageDirty) else e

/-- The entry after that. -/
def PteAct.apply (e : U64) : PteAct → U64
  | wrprotect => pteWrprotect e
  | mkuffdWp => pteMkuffdWp e
  | clearUffdWp => pteClearUffdWp e
  | mkclean => pteMkclean e
  | mkold => pteMkold e
  | mkexec => pteMkexec e
  | mkdirty => pteMkdirty e
  | mkwriteShstk => pteMkwriteShstk e
  | mkyoung => pteMkyoung e
  | mkwriteNovma => pteMkwriteNovma e
  | mksaveddirty => mksaveddirtyShift e
  | clearSaveddirty => clearSaveddirtyShift e
  | mkhuge => pteMkhuge e
  | clrhuge => pteClrhuge e
  | mkglobal => pteMkglobal e
  | clrglobal => pteClrglobal e
  | mkspecial => pteMkspecial e
  | mkdevmap => pteMkdevmap e
  | mksoftDirty => pteMksoftDirty e
  | clearSoftDirty => pteClearSoftDirty e
  | modify supportedPteMask newprot => pteModify supportedPteMask e newprot
  | load => hwLoad e
  | store => hwStore e

/-- The protection that `pte_modify` gets makes the entry present; and `pte_clrglobal` is for an
entry with the Present bit, since in another one the bit that it clears is `_PAGE_PROTNONE`. -/
def PteAct.Valid (e : U64) : PteAct → Bool
  | modify supportedPteMask newprot => ptePresent (massagePgprot supportedPteMask newprot)
  | clrglobal => e.getLsbD 0
  | _ => true

/-- Each change is valid where it takes place. -/
def PteAct.ValidRun : U64 → List PteAct → Bool
  | _, [] => true
  | e, act :: acts => act.Valid e && ValidRun (act.apply e) acts

/-- An entry of a shadow stack: the hardware's Dirty bit without the write permission. -/
def IsShadow (e : U64) : Prop := e.getLsbD 1 = false ∧ e.getLsbD 6 = true

/-- What every change of an entry leaves: it is present, and for the same page. -/
structure SamePage (e e' : U64) : Prop where
  present : ptePresent e' = true
  pfn : ptePfn e' = ptePfn e

/-- What a change of an ordinary entry may do: the page is the same, and an entry that is no shadow
stack's becomes none. -/
structure Sound (e e' : U64) : Prop extends SamePage e e' where
  notShadow : ¬ IsShadow e'

/-- A change that leaves the place alone. -/
theorem samePage_of_samePlace (hpresent : ptePresent e = true) (h : SamePlace e e') :
    SamePage e e' :=
  ⟨(ptePresent_of_samePlace h).trans hpresent, ptePfn_of_samePlace h hpresent⟩

/-- Flags other than the write permission may be cleared. -/
theorem not_isShadow_clear (hm : m.getLsbD 1 = false) (h : ¬ IsShadow e) :
    ¬ IsShadow (pteClearFlags e m) := by
  rintro ⟨hrw, hdirty⟩
  rw [getLsbD_pteClearFlags (by decide), hm, Bool.not_false, Bool.and_true] at hrw
  rw [getLsbD_pteClearFlags (by decide), Bool.and_eq_true] at hdirty
  exact h ⟨hrw, hdirty.1⟩

/-- Flags other than the hardware's Dirty bit may be set. -/
theorem not_isShadow_set (hm : m.getLsbD 6 = false) (h : ¬ IsShadow e) :
    ¬ IsShadow (pteSetFlags e m) := by
  rintro ⟨hrw, hdirty⟩
  rw [pteSetFlags, BitVec.getLsbD_or, Bool.or_eq_false_iff] at hrw
  rw [pteSetFlags, BitVec.getLsbD_or, hm, Bool.or_false] at hdirty
  exact h ⟨hrw.1, hdirty⟩

/-- An entry that is writable is not one of a shadow stack. -/
theorem not_isShadow_of_rw (h : e.getLsbD 1 = true) : ¬ IsShadow e := by
  rintro ⟨hrw, -⟩
  rw [h] at hrw
  exact absurd hrw (by decide)

/-- An entry without the hardware's Dirty bit neither. -/
theorem not_isShadow_of_clean (h : e.getLsbD 6 = false) : ¬ IsShadow e := by
  rintro ⟨-, hdirty⟩
  rw [h] at hdirty
  exact absurd hdirty (by decide)

/-- `mksaveddirty_shift` is made for that. -/
theorem not_isShadow_mksaveddirtyShift (x : U64) : ¬ IsShadow (mksaveddirtyShift x) := by
  cases h : x.getLsbD 1 with
  | true =>
    rw [mksaveddirtyShift_of_rw h]
    exact not_isShadow_of_rw h
  | false =>
    apply not_isShadow_of_clean
    rw [mksaveddirtyShift_of_not_rw h]
    exact (getLsbD_pteClearFlags (by decide) _ _).trans (Bool.and_false _)

/-- `clear_saveddirty_shift` gives the Dirty bit to entries that are writable only. -/
theorem not_isShadow_clearSaveddirtyShift (h : ¬ IsShadow x) :
    ¬ IsShadow (clearSaveddirtyShift x) := by
  cases hrw : x.getLsbD 1 with
  | false => rwa [clearSaveddirtyShift_of_not_rw hrw]
  | true =>
    apply not_isShadow_of_rw
    rw [clearSaveddirtyShift_of_rw hrw]
    refine (getLsbD_pteClearFlags (by decide) _ _).trans ?_
    rw [BitVec.getLsbD_or, hrw]
    rfl

/-- Other flags may be cleared in an entry that is dirty. -/
theorem pteDirty_clear (hm : m.getLsbD 6 = false) (hm' : m.getLsbD 58 = false) (e : U64) :
    pteDirty (pteClearFlags e m) = pteDirty e := by
  rw [pteDirty_eq, pteDirty_eq, getLsbD_pteClearFlags (by decide),
    getLsbD_pteClearFlags (by decide),
    hm, hm', Bool.not_false, Bool.and_true, Bool.and_true]

/-- Flags may be set in an entry that is dirty. -/
theorem pteDirty_set (h : pteDirty e = true) (m : U64) : pteDirty (pteSetFlags e m) = true := by
  rw [pteDirty_eq, Bool.or_eq_true] at h
  rw [pteDirty_eq, pteSetFlags, BitVec.getLsbD_or, BitVec.getLsbD_or, Bool.or_eq_true,
    Bool.or_eq_true, Bool.or_eq_true]
  exact h.imp .inl .inl

/-- Moving the Dirty bit does not lose it. -/
theorem pteDirty_mksaveddirtyShift (x : U64) : pteDirty (mksaveddirtyShift x) = pteDirty x := by
  cases h : x.getLsbD 1 with
  | true => rw [mksaveddirtyShift_of_rw h]
  | false =>
    rw [mksaveddirtyShift_of_not_rw h]
    change pteDirty (pteClearFlags _ pageDirty) = _
    rw [pteDirty_eq, pteDirty_eq, getLsbD_pteClearFlags (by decide),
      getLsbD_pteClearFlags (by decide), show pageDirty.getLsbD 6 = true by decide,
      show pageDirty.getLsbD 58 = false by decide, BitVec.getLsbD_or, BitVec.getLsbD_or]
    cases x.getLsbD 6 with
    | false => simp
    | true => simp [show pageSavedDirty.getLsbD 58 = true by decide]

/-- Nor does moving it back. -/
theorem pteDirty_clearSaveddirtyShift (x : U64) :
    pteDirty (clearSaveddirtyShift x) = pteDirty x := by
  cases h : x.getLsbD 1 with
  | false => rw [clearSaveddirtyShift_of_not_rw h]
  | true =>
    rw [clearSaveddirtyShift_of_rw h]
    change pteDirty (pteClearFlags _ pageSavedDirty) = _
    rw [pteDirty_eq, pteDirty_eq, getLsbD_pteClearFlags (by decide),
      getLsbD_pteClearFlags (by decide), show pageSavedDirty.getLsbD 6 = false by decide,
      show pageSavedDirty.getLsbD 58 = true by decide, BitVec.getLsbD_or, BitVec.getLsbD_or]
    cases x.getLsbD 58 with
    | false => simp
    | true => simp [show pageDirty.getLsbD 6 = true by decide]

/-! ### `pte_modify` -/

/-- The entry of `pte_modify` before the Dirty bit is moved. -/
def modified (pte newprot : U64) : U64 :=
  flipProtnoneGuard pte ((pte &&& pageChgMask) ||| (newprot &&& ~~~pageChgMask)) ptePfnMask

/-- Where the guard is at work. -/
theorem getLsbD_flipProtnoneGuard (hi : ptePfnMask.getLsbD i = false) (hi' : i < 64) (x y : U64) :
    (flipProtnoneGuard x y ptePfnMask).getLsbD i = y.getLsbD i := by
  unfold flipProtnoneGuard
  split_ifs
  · rw [BitVec.getLsbD_or, BitVec.getLsbD_and, BitVec.getLsbD_and, BitVec.getLsbD_not, hi,
      decide_eq_true hi']
    simp
  · rfl

/-- The bits of an entry that keep what they were. -/
theorem getLsbD_modified_of_kept (hi : pageChgMask.getLsbD i = true)
    (hi' : ptePfnMask.getLsbD i = false) (hlt : i < 64) (e x : U64) :
    (modified e x).getLsbD i = e.getLsbD i := by
  rw [modified, getLsbD_flipProtnoneGuard hi' hlt, BitVec.getLsbD_or, BitVec.getLsbD_and,
    BitVec.getLsbD_and, BitVec.getLsbD_not, hi]
  simp

/-- The other bits are those of the new protection. -/
theorem getLsbD_modified_of_new (hi : pageChgMask.getLsbD i = false)
    (hi' : ptePfnMask.getLsbD i = false) (hlt : i < 64) (e x : U64) :
    (modified e x).getLsbD i = x.getLsbD i := by
  rw [modified, getLsbD_flipProtnoneGuard hi' hlt, BitVec.getLsbD_or, BitVec.getLsbD_and,
    BitVec.getLsbD_and, BitVec.getLsbD_not, hi, decide_eq_true hlt]
  simp

/-- The new protection says whether the entry is present. -/
theorem ptePresent_modified (e x : U64) : ptePresent (modified e x) = ptePresent x := by
  rw [Bool.eq_iff_iff, ptePresent_iff, ptePresent_iff,
    getLsbD_modified_of_new (by decide) (by decide) (by decide),
    getLsbD_modified_of_new (by decide) (by decide) (by decide)]

/-- The guard inverts the frame exactly where `pte_pfn` reads it the other way. -/
theorem ptePfn_modified (he : ptePresent e = true) (hx : ptePresent x = true) :
    ptePfn (modified e x) = ptePfn e := by
  obtain ⟨y, hy⟩ : ∃ y, y = (e &&& pageChgMask) ||| (x &&& ~~~pageChgMask) := ⟨_, rfl⟩
  have hmodified : modified e x = flipProtnoneGuard e y ptePfnMask := by rw [modified, hy]
  have hpresent : ptePresent (modified e x) = true := (ptePresent_modified e x).trans hx
  have hbit : (modified e x).getLsbD 0 = y.getLsbD 0 := by
    rw [hmodified]
    exact getLsbD_flipProtnoneGuard (by decide) (by decide) e y
  have hchg : pageChgMask &&& ptePfnMask = ptePfnMask := by decide
  have hnew : ~~~pageChgMask &&& ptePfnMask = 0 := by decide
  have hframe : y &&& ptePfnMask = e &&& ptePfnMask := by
    have hdistrib : y &&& ptePfnMask =
        (e &&& (pageChgMask &&& ptePfnMask)) ||| (x &&& (~~~pageChgMask &&& ptePfnMask)) := by
      rw [hy]
      ext j hj
      simp only [BitVec.getElem_and, BitVec.getElem_or, Bool.and_or_distrib_right, Bool.and_assoc]
    rw [hdistrib, hchg, hnew]
    simp
  have hyne : y ≠ 0 := by
    have hpresent' : ptePresent y = true := by
      rw [ptePresent_iff, ← hbit]
      rw [ptePresent_iff] at hpresent
      refine hpresent.imp id fun h8 => ?_
      rwa [hmodified, getLsbD_flipProtnoneGuard (by decide) (by decide)] at h8
    exact ne_zero_of_ptePresent hpresent'
  have hnot (z : U64) : ~~~z &&& ptePfnMask = ptePfnMask &&& ~~~(z &&& ptePfnMask) := by
    ext j hj
    simp only [BitVec.getElem_and, BitVec.getElem_not]
    cases z[j] <;> cases ptePfnMask[j] <;> rfl
  have hflip : ((y &&& ~~~ptePfnMask) ||| (~~~y &&& ptePfnMask)) &&& ptePfnMask =
      ~~~y &&& ptePfnMask := by
    ext j hj
    simp only [BitVec.getElem_and, BitVec.getElem_or, BitVec.getElem_not]
    cases y[j] <;> cases ptePfnMask[j] <;> rfl
  unfold ptePfn
  rw [xor_protnoneMask (ne_zero_of_ptePresent he),
    xor_protnoneMask (ne_zero_of_ptePresent hpresent),
    hbit, hmodified, flipProtnoneGuard, pteNeedsInvert_eq (ne_zero_of_ptePresent he),
    pteNeedsInvert_eq hyne]
  cases e.getLsbD 0 with
  | true =>
    cases y.getLsbD 0 with
    | true =>
      show (y &&& ptePfnMask) >>> 12 = (e &&& ptePfnMask) >>> 12
      rw [hframe]
    | false =>
      show (~~~((y &&& ~~~ptePfnMask) ||| (~~~y &&& ptePfnMask)) &&& ptePfnMask) >>> 12 =
        (e &&& ptePfnMask) >>> 12
      rw [hnot, hflip, ← hnot, BitVec.not_not, hframe]
  | false =>
    cases y.getLsbD 0 with
    | true =>
      show (((y &&& ~~~ptePfnMask) ||| (~~~y &&& ptePfnMask)) &&& ptePfnMask) >>> 12 =
        (~~~e &&& ptePfnMask) >>> 12
      rw [hflip, hnot, hnot, hframe]
    | false =>
      show (~~~y &&& ptePfnMask) >>> 12 = (~~~e &&& ptePfnMask) >>> 12
      rw [hnot, hnot, hframe]

/-- `pte_modify` moves the Dirty bit of what it makes. -/
theorem pteModify_eq (supportedPteMask e newprot : U64) :
    pteModify supportedPteMask e newprot =
      let val := modified e (massagePgprot supportedPteMask newprot)
      if e &&& pageRw ≠ 0 then mksaveddirtyShift val else clearSaveddirtyShift val :=
  rfl

/-- `pte_modify` keeps the page. -/
theorem samePage_pteModify {supportedPteMask newprot : U64} (he : ptePresent e = true)
    (hprot : ptePresent (massagePgprot supportedPteMask newprot) = true) :
    SamePage e (pteModify supportedPteMask e newprot) := by
  have hpresent := (ptePresent_modified e (massagePgprot supportedPteMask newprot)).trans hprot
  have hpfn := ptePfn_modified he hprot
  rw [pteModify_eq]
  dsimp only
  split_ifs
  · have hsame := samePage_of_samePlace hpresent (samePlace_mksaveddirtyShift _)
    exact ⟨hsame.present, hsame.pfn.trans hpfn⟩
  · have hsame := samePage_of_samePlace hpresent (samePlace_clearSaveddirtyShift _)
    exact ⟨hsame.present, hsame.pfn.trans hpfn⟩

/-- It makes no entry one of a shadow stack. -/
theorem not_isShadow_pteModify (hnot : ¬ IsShadow e) (supportedPteMask newprot : U64) :
    ¬ IsShadow (pteModify supportedPteMask e newprot) := by
  rw [pteModify_eq]
  dsimp only
  split_ifs with hrw
  · exact not_isShadow_mksaveddirtyShift _
  · -- an entry that was not writable had no Dirty bit, and `pte_modify` does not take it from
    -- the new protection
    have hclean : e.getLsbD 6 = false := by
      rw [and_pageRw_ne_zero_iff, Bool.not_eq_true] at hrw
      by_contra hset
      exact hnot ⟨hrw, by rwa [Bool.not_eq_false] at hset⟩
    apply not_isShadow_clearSaveddirtyShift
    apply not_isShadow_of_clean
    rw [getLsbD_modified_of_kept (by decide) (by decide) (by decide), hclean]

/-- And a dirty entry stays dirty. -/
theorem pteDirty_pteModify (supportedPteMask e newprot : U64) :
    pteDirty (pteModify supportedPteMask e newprot) = pteDirty e := by
  have hdirty (y : U64) : pteDirty (modified e y) = pteDirty e := by
    rw [pteDirty_eq, pteDirty_eq, getLsbD_modified_of_kept (by decide) (by decide) (by decide),
      getLsbD_modified_of_kept (by decide) (by decide) (by decide)]
  rw [pteModify_eq]
  dsimp only
  split_ifs
  · rw [pteDirty_mksaveddirtyShift, hdirty]
  · rw [pteDirty_clearSaveddirtyShift, hdirty]

/-! ### One change, and all of them -/

/-- A helper that clears flags. -/
theorem samePage_clear (he : ptePresent e = true) (m : U64)
    (hplace : ~~~m &&& placeMask = placeMask) : SamePage e (pteClearFlags e m) :=
  samePage_of_samePlace he (samePlace_clear hplace e)

/-- A helper that sets flags. -/
theorem samePage_set (he : ptePresent e = true) (m : U64) (hplace : m &&& placeMask = 0) :
    SamePage e (pteSetFlags e m) :=
  samePage_of_samePlace he (samePlace_set hplace e)

/-- A helper that changes flags and moves the Dirty bit. -/
theorem samePage_shift (he : ptePresent e = true) (h : SamePlace e e') :
    SamePage e (mksaveddirtyShift e') :=
  samePage_of_samePlace he (h.trans (samePlace_mksaveddirtyShift e'))

/-- `pte_mkglobal` sets the bit that an entry without access is present by. -/
theorem samePage_pteMkglobal (he : ptePresent e = true) : SamePage e (pteMkglobal e) := by
  have hbit (i : ℕ) : (pteMkglobal e).getLsbD i = (e.getLsbD i || pageGlobal.getLsbD i) :=
    BitVec.getLsbD_or
  have h0 : pageGlobal.getLsbD 0 = false := by decide
  have h8 : pageGlobal.getLsbD 8 = true := by decide
  have hpresent : ptePresent (pteMkglobal e) = true := by
    rw [ptePresent_iff, hbit, hbit, h8, Bool.or_true]
    exact .inr rfl
  refine ⟨hpresent, ptePfn_of_frame he hpresent ?_ (pteSetFlags_and (by decide) e)⟩
  rw [hbit, h0, Bool.or_false]

/-- `pte_clrglobal` clears it, so that the entry has to have the Present bit. -/
theorem samePage_pteClrglobal (h : e.getLsbD 0 = true) : SamePage e (pteClrglobal e) := by
  have hframe : pteClrglobal e &&& ptePfnMask = e &&& ptePfnMask := by
    unfold pteClrglobal pteClearFlags
    rw [BitVec.and_assoc, show ~~~pageGlobal &&& ptePfnMask = ptePfnMask by decide]
  have hbit : (pteClrglobal e).getLsbD 0 = e.getLsbD 0 := by
    rw [pteClrglobal, getLsbD_pteClearFlags (by decide),
      show pageGlobal.getLsbD 0 = false by decide]
    exact Bool.and_true _
  have hpresent : ptePresent (pteClrglobal e) = true :=
    (ptePresent_iff _).mpr (.inl (hbit.trans h))
  exact ⟨hpresent, ptePfn_of_frame ((ptePresent_iff e).mpr (.inl h)) hpresent hbit hframe⟩

/-- Another entry is not present any more behind it. -/
theorem ptePresent_pteClrglobal (h : e.getLsbD 0 = false) :
    ptePresent (pteClrglobal e) = false := by
  have h8 : pageGlobal.getLsbD 8 = true := by decide
  rw [← Bool.not_eq_true, ptePresent_iff, pteClrglobal, getLsbD_pteClearFlags (by decide),
    getLsbD_pteClearFlags (by decide), h, h8]
  simp

/-- Every change leaves the page. -/
theorem samePage_apply (he : ptePresent e = true) (act : PteAct) (hact : act.Valid e) :
    SamePage e (act.apply e) := by
  cases act with
  | wrprotect => exact samePage_shift he (samePlace_clear (by decide) e)
  | mkuffdWp =>
    exact samePage_shift he ((samePlace_set (by decide) e).trans (samePlace_clear (by decide) _))
  | clearUffdWp => exact samePage_clear he pageUffdWp (by decide)
  | mkclean => exact samePage_clear he pageDirtyBits (by decide)
  | mkold => exact samePage_clear he pageAccessed (by decide)
  | mkexec => exact samePage_clear he pageNx (by decide)
  | mkdirty => exact samePage_shift he (samePlace_set (by decide) e)
  | mkwriteShstk =>
    exact samePage_of_samePlace he
      ((samePlace_clear (by decide) e).trans (samePlace_set (by decide) _))
  | mkyoung => exact samePage_set he pageAccessed (by decide)
  | mkwriteNovma => exact samePage_set he pageRw (by decide)
  | mksaveddirty => exact samePage_shift he rfl
  | clearSaveddirty => exact samePage_of_samePlace he (samePlace_clearSaveddirtyShift e)
  | mkhuge => exact samePage_set he pagePse (by decide)
  | clrhuge => exact samePage_clear he pagePse (by decide)
  | mkglobal => exact samePage_pteMkglobal he
  | clrglobal => exact samePage_pteClrglobal hact
  | mkspecial => exact samePage_set he pageSpecial (by decide)
  | mkdevmap => exact samePage_set he (pageSpecial ||| pageDevmap) (by decide)
  | mksoftDirty => exact samePage_set he pageSoftDirty (by decide)
  | clearSoftDirty => exact samePage_clear he pageSoftDirty (by decide)
  | modify supportedPteMask newprot => exact samePage_pteModify he hact
  | load =>
    show SamePage e (hwLoad e)
    unfold hwLoad
    split_ifs
    · exact samePage_set he pageAccessed (by decide)
    · exact ⟨he, rfl⟩
  | store =>
    show SamePage e (hwStore e)
    unfold hwStore
    split_ifs
    · exact samePage_set he (pageAccessed ||| pageDirty) (by decide)
    · exact ⟨he, rfl⟩

/-- `pte_mkwrite_shstk` makes every entry one of a shadow stack. -/
theorem isShadow_pteMkwriteShstk (e : U64) : IsShadow (pteMkwriteShstk e) := by
  have hrw : pageRw.getLsbD 1 = true := by decide
  have hdirty : pageDirty.getLsbD 1 = false ∧ pageDirty.getLsbD 6 = true := by decide
  unfold IsShadow pteMkwriteShstk pteSetFlags
  rw [BitVec.getLsbD_or, BitVec.getLsbD_or, getLsbD_pteClearFlags (by decide), hrw, hdirty.1,
    hdirty.2, Bool.not_true, Bool.and_false, Bool.or_true]
  exact ⟨rfl, rfl⟩

/-- No other change makes one of an entry. -/
theorem not_isShadow_apply (hnot : ¬ IsShadow e) (act : PteAct) (hne : act ≠ .mkwriteShstk) :
    ¬ IsShadow (act.apply e) := by
  cases act with
  | wrprotect => exact not_isShadow_mksaveddirtyShift _
  | mkuffdWp => exact not_isShadow_mksaveddirtyShift _
  | clearUffdWp => exact not_isShadow_clear (by decide) hnot
  | mkclean => exact not_isShadow_clear (by decide) hnot
  | mkold => exact not_isShadow_clear (by decide) hnot
  | mkexec => exact not_isShadow_clear (by decide) hnot
  | mkdirty => exact not_isShadow_mksaveddirtyShift _
  | mkwriteShstk => exact absurd rfl hne
  | mkyoung => exact not_isShadow_set (by decide) hnot
  | mkwriteNovma => exact not_isShadow_set (by decide) hnot
  | mksaveddirty => exact not_isShadow_mksaveddirtyShift e
  | clearSaveddirty => exact not_isShadow_clearSaveddirtyShift hnot
  | mkhuge => exact not_isShadow_set (by decide) hnot
  | clrhuge => exact not_isShadow_clear (by decide) hnot
  | mkglobal => exact not_isShadow_set (by decide) hnot
  | clrglobal => exact not_isShadow_clear (by decide) hnot
  | mkspecial => exact not_isShadow_set (by decide) hnot
  | mkdevmap => exact not_isShadow_set (by decide) hnot
  | mksoftDirty => exact not_isShadow_set (by decide) hnot
  | clearSoftDirty => exact not_isShadow_clear (by decide) hnot
  | modify supportedPteMask newprot => exact not_isShadow_pteModify hnot supportedPteMask newprot
  | load =>
    show ¬ IsShadow (hwLoad e)
    unfold hwLoad
    split_ifs
    · exact not_isShadow_set (by decide) hnot
    · exact hnot
  | store =>
    show ¬ IsShadow (hwStore e)
    unfold hwStore
    split_ifs with hmay
    · apply not_isShadow_of_rw
      rw [BitVec.getLsbD_or, (and_pageRw_ne_zero_iff e).mp hmay.2, Bool.true_or]
    · exact hnot

/-- Only `pte_mkclean` makes an entry clean. -/
theorem pteDirty_apply (act : PteAct) (hclean : act ≠ .mkclean) (h : pteDirty e = true) :
    pteDirty (act.apply e) = true := by
  have hclear {m : U64} (h6 : m.getLsbD 6 = false) (h58 : m.getLsbD 58 = false) :
      pteDirty (pteClearFlags e m) = true := (pteDirty_clear h6 h58 e).trans h
  cases act with
  | wrprotect => exact (pteDirty_mksaveddirtyShift _).trans (hclear (by decide) (by decide))
  | mkuffdWp =>
    refine (pteDirty_mksaveddirtyShift _).trans ?_
    exact (pteDirty_clear (by decide) (by decide) _).trans (pteDirty_set h _)
  | clearUffdWp => exact hclear (by decide) (by decide)
  | mkclean => exact absurd rfl hclean
  | mkold => exact hclear (by decide) (by decide)
  | mkexec => exact hclear (by decide) (by decide)
  | mkdirty => exact (pteDirty_mksaveddirtyShift _).trans (pteDirty_set h _)
  | mkwriteShstk => exact pteDirty_set (hclear (by decide) (by decide)) _
  | mkyoung => exact pteDirty_set h _
  | mkwriteNovma => exact pteDirty_set h _
  | mksaveddirty => exact (pteDirty_mksaveddirtyShift e).trans h
  | clearSaveddirty => exact (pteDirty_clearSaveddirtyShift e).trans h
  | mkhuge => exact pteDirty_set h _
  | clrhuge => exact hclear (by decide) (by decide)
  | mkglobal => exact pteDirty_set h _
  | clrglobal => exact hclear (by decide) (by decide)
  | mkspecial => exact pteDirty_set h _
  | mkdevmap => exact pteDirty_set h _
  | mksoftDirty => exact pteDirty_set h _
  | clearSoftDirty => exact hclear (by decide) (by decide)
  | modify supportedPteMask newprot => exact (pteDirty_pteModify supportedPteMask e newprot).trans h
  | load =>
    show pteDirty (hwLoad e) = true
    unfold hwLoad
    split_ifs
    · exact pteDirty_set h _
    · exact h
  | store =>
    show pteDirty (hwStore e) = true
    unfold hwStore
    split_ifs
    · exact pteDirty_set h _
    · exact h

/-- A run leaves the page. -/
theorem samePage_foldl (he : ptePresent e = true) (acts : List PteAct)
    (hacts : PteAct.ValidRun e acts = true) : SamePage e (acts.foldl PteAct.apply e) := by
  -- on the run: each change finds an entry that is present, and leaves one
  induction acts generalizing e with
  | nil => exact ⟨he, rfl⟩
  | cons act acts ih =>
    obtain ⟨hact, hrest⟩ := Bool.and_eq_true_iff.mp hacts
    have hfirst := samePage_apply he act hact
    have hrest := ih hfirst.present hrest
    exact ⟨hrest.present, hrest.pfn.trans hfirst.pfn⟩

/-- A run without `pte_mkwrite_shstk` makes no entry one of a shadow stack. -/
theorem not_isShadow_foldl (hnot : ¬ IsShadow e) (acts : List PteAct)
    (hshstk : .mkwriteShstk ∉ acts) : ¬ IsShadow (acts.foldl PteAct.apply e) := by
  induction acts generalizing e with
  | nil => exact hnot
  | cons act acts ih =>
    have hne : act ≠ .mkwriteShstk := fun heq => hshstk (by rw [heq]; exact List.mem_cons_self)
    exact ih (not_isShadow_apply hnot act hne) fun hmem => hshstk (List.mem_cons_of_mem act hmem)

/-- A run without `pte_mkclean` leaves an entry dirty. -/
theorem pteDirty_foldl (acts : List PteAct) (hclean : .mkclean ∉ acts) (h : pteDirty e = true) :
    pteDirty (acts.foldl PteAct.apply e) = true := by
  induction acts generalizing e with
  | nil => exact h
  | cons act acts ih =>
    have hne : act ≠ .mkclean := fun heq => hclean (by rw [heq]; exact List.mem_cons_self)
    exact ih (fun hmem => hclean (List.mem_cons_of_mem act hmem)) (pteDirty_apply act hne h)

/-- A write that the hardware lets through is not forgotten before `pte_mkclean`. -/
theorem store_stays_dirty (before after : List PteAct)
    (hpresent : (before.foldl PteAct.apply e).getLsbD 0 = true)
    (hrw : (before.foldl PteAct.apply e).getLsbD 1 = true) (hclean : .mkclean ∉ after) :
    pteDirty ((before ++ .store :: after).foldl PteAct.apply e) = true := by
  -- the run up to the write, the write, and the run behind it
  have hmay : before.foldl PteAct.apply e &&& pagePresent ≠ 0 ∧
      before.foldl PteAct.apply e &&& pageRw ≠ 0 := by
    have hzero : before.foldl PteAct.apply e &&& pagePresent = 0 ↔
        (before.foldl PteAct.apply e).getLsbD 0 = false :=
      BitField.and_twoPow_eq_zero_iff _ (by decide)
    refine ⟨?_, (and_pageRw_ne_zero_iff _).mpr hrw⟩
    rw [ne_eq, hzero, hpresent]
    decide
  have hdirty : pteDirty (PteAct.store.apply (before.foldl PteAct.apply e)) = true := by
    show pteDirty (hwStore _) = true
    have hbit : (pageAccessed ||| pageDirty).getLsbD 6 = true := by decide
    rw [hwStore, if_pos hmay, pteDirty_eq, BitVec.getLsbD_or, hbit, Bool.or_true, Bool.true_or]
  rw [List.foldl_append, List.foldl_cons]
  exact pteDirty_foldl after hclean hdirty

/-- The entry of a page, in any run: it stays present and with its page; unless `pte_mkwrite_shstk`
is in the run, it does not become one of a shadow stack; and where the page was written the entry is
dirty until `pte_mkclean`, whatever else happens to it. -/
theorem foldl_sound (he : ptePresent e = true) (acts : List PteAct)
    (hacts : PteAct.ValidRun e acts = true) :
    SamePage e (acts.foldl PteAct.apply e) ∧
      (¬ IsShadow e → .mkwriteShstk ∉ acts → ¬ IsShadow (acts.foldl PteAct.apply e)) ∧
      ∀ before after, acts = before ++ .store :: after →
        (before.foldl PteAct.apply e).getLsbD 0 = true →
        (before.foldl PteAct.apply e).getLsbD 1 = true → .mkclean ∉ after →
        pteDirty (acts.foldl PteAct.apply e) = true := by
  refine ⟨samePage_foldl he acts hacts, fun hnot => not_isShadow_foldl hnot acts, ?_⟩
  rintro before after rfl hpresent hrw hclean
  exact store_stays_dirty before after hpresent hrw hclean

/-- `foldl_sound`, for an entry that is written, made read-only and clean, and written again. -/
theorem foldl_sound_demo :
    let acts : List PteAct := [.store, .wrprotect, .mkclean, .mkwriteNovma, .store, .clrglobal]
    SamePage 0x5007 (acts.foldl PteAct.apply 0x5007) ∧
      (¬ IsShadow 0x5007 → .mkwriteShstk ∉ acts →
        ¬ IsShadow (acts.foldl PteAct.apply 0x5007)) ∧
      ∀ before after, acts = before ++ .store :: after →
        (before.foldl PteAct.apply 0x5007).getLsbD 0 = true →
        (before.foldl PteAct.apply 0x5007).getLsbD 1 = true → .mkclean ∉ after →
        pteDirty (acts.foldl PteAct.apply 0x5007) = true :=
  foldl_sound (by decide) _ (by decide)

/-! ## `ptep_set_wrprotect` -/

/-- `ptep_set_wrprotect` on its way, and the entry in memory. -/
structure SetWrprotect where
  mem : U64
  /-- `old_pte`, after it is read. -/
  old : Option U64
  /-- `try_cmpxchg` was successful. -/
  done : Bool
  deriving DecidableEq

/-- Whose turn it is: the loop's, or that of the hardware, which reads or writes the page. -/
inductive Turn where
  | kernel
  | load
  | store
  deriving DecidableEq

/-- A turn. That of the loop is `READ_ONCE` or a `try_cmpxchg`, which puts what it finds into
`old_pte` where it fails. -/
def SetWrprotect.step : Turn → SetWrprotect → Option SetWrprotect
  | .kernel, s =>
    if s.done then none
    else
      match s.old with
      | none => some { s with old := some s.mem }
      | some old =>
        if s.mem = old then some { s with mem := pteWrprotect old, done := true }
        else some { s with old := some s.mem }
  | .load, s => some { s with mem := hwLoad s.mem }
  | .store, s => some { s with mem := hwStore s.mem }

open Schedule (exec turn)

variable {s : SetWrprotect}

/-- A turn changes the entry as one of these three does, and `pte_wrprotect` is the turn that makes
the loop end. -/
theorem mem_turn (t : Turn) (s : SetWrprotect) :
    ∃ acts : List PteAct, (turn SetWrprotect.step t s).mem = acts.foldl PteAct.apply s.mem ∧
      (∀ act ∈ acts, act = .wrprotect ∨ act = .load ∨ act = .store) ∧
      acts.count .wrprotect + s.done.toNat = (turn SetWrprotect.step t s).done.toNat := by
  unfold turn SetWrprotect.step
  cases t with
  | load => exact ⟨[.load], rfl, by simp, by simp⟩
  | store => exact ⟨[.store], rfl, by simp, by simp⟩
  | kernel =>
    simp only
    by_cases hdone : s.done = true
    · rw [if_pos hdone]
      exact ⟨[], rfl, by simp, by simp⟩
    · rw [if_neg hdone]
      rw [Bool.not_eq_true] at hdone
      cases s.old with
      | none => exact ⟨[], rfl, by simp, by simp⟩
      | some old =>
        simp only
        split_ifs with hsame
        · -- the exchange takes place only where the entry is what was read
          refine ⟨[.wrprotect], ?_, by simp, by simp [hdone]⟩
          rw [← hsame]
          rfl
        · exact ⟨[], rfl, by simp, by simp⟩

/-- The loop is one `pte_wrprotect` among what the hardware does. -/
theorem mem_exec (turns : List Turn) (s : SetWrprotect) :
    ∃ acts : List PteAct, (exec SetWrprotect.step turns s).mem = acts.foldl PteAct.apply s.mem ∧
      (∀ act ∈ acts, act = .wrprotect ∨ act = .load ∨ act = .store) ∧
      acts.count .wrprotect + s.done.toNat = (exec SetWrprotect.step turns s).done.toNat := by
  induction turns generalizing s with
  | nil => exact ⟨[], rfl, by simp, by simp [exec]⟩
  | cons t turns ih =>
    obtain ⟨acts, hmem, hacts, hcount⟩ := mem_turn t s
    obtain ⟨acts', hmem', hacts', hcount'⟩ := ih (turn SetWrprotect.step t s)
    refine ⟨acts ++ acts', ?_, ?_, ?_⟩
    · rw [List.foldl_append, ← hmem]
      exact hmem'
    · intro act h
      rcases List.mem_append.mp h with h | h
      · exact hacts act h
      · exact hacts' act h
    · rw [List.count_append]
      show _ = (exec SetWrprotect.step turns (turn SetWrprotect.step t s)).done.toNat
      omega

/-- The hardware's bits of an entry that are set. -/
def hwBits (e : U64) : ℕ := (e.getLsbD 5).toNat + (e.getLsbD 6).toNat

/-- The hardware has made the one entry of the other. -/
def Ahead (e e' : U64) : Prop :=
  e' &&& ~~~(pageAccessed ||| pageDirty) = e &&& ~~~(pageAccessed ||| pageDirty) ∧
    (e.getLsbD 5 = true → e'.getLsbD 5 = true) ∧ (e.getLsbD 6 = true → e'.getLsbD 6 = true)

/-- It sets more and more of them. -/
theorem Ahead.hwBits_lt (h : Ahead e e') (hne : e' ≠ e) : hwBits e < hwBits e' := by
  obtain ⟨hrest, h5, h6⟩ := h
  by_contra hle
  unfold hwBits at hle
  have hbits : e'.getLsbD 5 = e.getLsbD 5 ∧ e'.getLsbD 6 = e.getLsbD 6 := by
    revert h5 h6 hle
    cases e.getLsbD 5 <;> cases e'.getLsbD 5 <;> cases e.getLsbD 6 <;> cases e'.getLsbD 6 <;> simp
  apply hne
  apply BitVec.eq_of_getLsbD_eq
  intro j hj
  by_cases hj5 : j = 5
  · rw [hj5, hbits.1]
  by_cases hj6 : j = 6
  · rw [hj6, hbits.2]
  have hmask : (~~~(pageAccessed ||| pageDirty)).getLsbD j = true := by
    rw [BitVec.getLsbD_not, BitVec.getLsbD_or, pageAccessed, pageDirty, BitVec.getLsbD_twoPow,
      BitVec.getLsbD_twoPow]
    simp [hj, Ne.symm hj5, Ne.symm hj6]
  have hbit := congrArg (BitVec.getLsbD · j) hrest
  simp only [BitVec.getLsbD_and, hmask, Bool.and_true] at hbit
  exact hbit

/-- Flags of the hardware that are set. -/
theorem Ahead.set (h : Ahead e e') (hm : m &&& ~~~(pageAccessed ||| pageDirty) = 0) :
    Ahead e (e' ||| m) := by
  obtain ⟨hrest, h5, h6⟩ := h
  refine ⟨?_, fun h => ?_, fun h => ?_⟩
  · have hdistrib : (e' ||| m) &&& ~~~(pageAccessed ||| pageDirty) =
        (e' &&& ~~~(pageAccessed ||| pageDirty)) ||| (m &&& ~~~(pageAccessed ||| pageDirty)) := by
      ext j hj
      simp only [BitVec.getElem_and, BitVec.getElem_or, Bool.and_or_distrib_right]
    have hor (y : U64) : y ||| 0 = y := BitVec.or_zero
    rw [hdistrib, hm, hor, hrest]
  · rw [BitVec.getLsbD_or, h5 h, Bool.true_or]
  · rw [BitVec.getLsbD_or, h6 h, Bool.true_or]

/-- How many turns the loop still needs at most. -/
def SetWrprotect.budget (s : SetWrprotect) : ℕ :=
  if s.done then 0
  else
    match s.old with
    | none => 4
    | some old => 1 + (2 - hwBits old)

/-- The entry in memory is the one that was read, or the hardware has been at it. -/
def SetWrprotect.Follows (s : SetWrprotect) : Prop :=
  s.done = false → ∀ old ∈ s.old, Ahead old s.mem

/-- There are two bits of the hardware. -/
theorem hwBits_le (e : U64) : hwBits e ≤ 2 := by
  unfold hwBits
  cases e.getLsbD 5 <;> cases e.getLsbD 6 <;> simp

/-- A turn of the loop takes one of the turns that it needs. -/
theorem budget_turn (t : Turn) (h : s.Follows) :
    (turn SetWrprotect.step t s).Follows ∧
      ((turn SetWrprotect.step t s).done = true ∨
        (turn SetWrprotect.step t s).budget + [t].count .kernel ≤ s.budget) := by
  unfold turn SetWrprotect.step
  cases t with
  | load =>
    refine ⟨fun hdone old hold => ?_, .inr (by simp [SetWrprotect.budget])⟩
    show Ahead old (hwLoad s.mem)
    unfold hwLoad
    split_ifs
    · exact (h hdone old hold).set (by decide)
    · exact h hdone old hold
  | store =>
    refine ⟨fun hdone old hold => ?_, .inr (by simp [SetWrprotect.budget])⟩
    show Ahead old (hwStore s.mem)
    unfold hwStore
    split_ifs
    · exact (h hdone old hold).set (by decide)
    · exact h hdone old hold
  | kernel =>
    simp only
    by_cases hdone : s.done = true
    · rw [if_pos hdone]
      exact ⟨h, .inl hdone⟩
    rw [if_neg hdone]
    rw [Bool.not_eq_true] at hdone
    have hself : Ahead s.mem s.mem := ⟨rfl, id, id⟩
    have hle := hwBits_le s.mem
    cases hold : s.old with
    | none =>
      refine ⟨fun _ old h' => ?_, .inr ?_⟩
      · obtain rfl := Option.some.inj h'
        exact hself
      · simp only [SetWrprotect.budget, Option.getD_some, hdone, hold, Bool.false_eq_true, if_false,
          List.count_singleton_self]
        omega
    | some old =>
      have hlt := (h hdone old hold).hwBits_lt
      simp only
      by_cases hsame : s.mem = old
      · rw [if_pos hsame]
        exact ⟨fun h' => absurd h' (by simp), .inl rfl⟩
      · rw [if_neg hsame]
        refine ⟨fun _ old' h' => ?_, .inr ?_⟩
        · obtain rfl := Option.some.inj h'
          exact hself
        · have hmore := hlt hsame
          simp only [SetWrprotect.budget, Option.getD_some, hdone, hold, Bool.false_eq_true,
            if_false, List.count_singleton_self]
          omega

/-- The end of the loop is the end. -/
theorem done_exec (turns : List Turn) (h : s.done = true) :
    (exec SetWrprotect.step turns s).done = true := by
  obtain ⟨acts, -, -, hcount⟩ := mem_exec turns s
  rw [h] at hcount
  cases hdone : (exec SetWrprotect.step turns s).done with
  | true => rfl
  | false =>
    rw [hdone] at hcount
    simp at hcount

/-- The loop ends: the hardware can get in its way no more than twice. -/
theorem budget_exec (turns : List Turn) (h : s.Follows) :
    (exec SetWrprotect.step turns s).done = true ∨
      (exec SetWrprotect.step turns s).budget + turns.count .kernel ≤ s.budget := by
  induction turns generalizing s with
  | nil => exact .inr (by simp [exec])
  | cons t turns ih =>
    obtain ⟨hfollows, hfirst⟩ := budget_turn t h
    rcases hfirst with hdone | hfirst
    · exact .inl (done_exec turns hdone)
    · refine (ih hfollows).imp id fun hrest => ?_
      rw [← List.singleton_append, List.count_append]
      show (exec SetWrprotect.step turns (turn SetWrprotect.step t s)).budget + _ ≤ _
      omega

/-- What the loop leaves is protected, and stays so. -/
theorem not_rw_turn (t : Turn) (h : s.done = true → s.mem.getLsbD 1 = false) :
    (turn SetWrprotect.step t s).done = true →
      (turn SetWrprotect.step t s).mem.getLsbD 1 = false := by
  unfold turn SetWrprotect.step
  cases t with
  | load =>
    intro hdone
    show (hwLoad s.mem).getLsbD 1 = false
    unfold hwLoad
    split_ifs
    · rw [BitVec.getLsbD_or, h hdone]
      rfl
    · exact h hdone
  | store =>
    intro hdone
    show (hwStore s.mem).getLsbD 1 = false
    unfold hwStore
    split_ifs
    · rw [BitVec.getLsbD_or, h hdone]
      rfl
    · exact h hdone
  | kernel =>
    simp only
    by_cases hdone : s.done = true
    · rw [if_pos hdone]
      exact h
    rw [if_neg hdone]
    cases s.old with
    | none => exact fun h' => absurd h' hdone
    | some old =>
      simp only
      split_ifs with hsame
      · intro _
        exact getLsbD_pteWrprotect_rw old
      · exact fun h' => absurd h' hdone

/-- The same, after any turns. -/
theorem not_rw_exec (turns : List Turn) (h : s.done = true → s.mem.getLsbD 1 = false) :
    (exec SetWrprotect.step turns s).done = true →
      (exec SetWrprotect.step turns s).mem.getLsbD 1 = false := by
  induction turns generalizing s with
  | nil => exact h
  | cons t turns ih => exact ih (not_rw_turn t h)

/-- The three changes are valid wherever they take place. -/
theorem validRun_of_forall {acts : List PteAct}
    (hacts : ∀ act ∈ acts, act = .wrprotect ∨ act = .load ∨ act = .store) (e : U64) :
    PteAct.ValidRun e acts = true := by
  induction acts generalizing e with
  | nil => rfl
  | cons act acts ih =>
    have hrest := ih fun act' h => hacts act' (List.mem_cons_of_mem act h)
    refine Bool.and_eq_true_iff.mpr ⟨?_, hrest _⟩
    rcases hacts act List.mem_cons_self with rfl | rfl | rfl <;> rfl

/-- `ptep_set_wrprotect`, whatever the hardware does on the way: it ends after four turns, and the
page is then write-protected; the entry never becomes one of a shadow stack and keeps its page; and
a write that the hardware did before that is not lost. -/
theorem setWrprotect_exec (he : ptePresent e = true) (hnot : ¬ IsShadow e) (turns : List Turn) :
    let run (turns : List Turn) := exec SetWrprotect.step turns ⟨e, none, false⟩
    (4 ≤ turns.count .kernel → (run turns).done = true) ∧
      ((run turns).done = true → (run turns).mem.getLsbD 1 = false) ∧
      Sound e (run turns).mem ∧
      ∀ before after, turns = before ++ .store :: after →
        (run before).mem.getLsbD 0 = true → (run before).mem.getLsbD 1 = true →
        pteDirty (run turns).mem = true := by
  intro run
  refine ⟨fun hcount => ?_, ?_, ?_, ?_⟩
  · have hstart : SetWrprotect.Follows ⟨e, none, false⟩ := fun _ old h => absurd h (by simp)
    rcases budget_exec turns hstart with hdone | hle
    · exact hdone
    · by_contra hdone
      rw [Bool.not_eq_true] at hdone
      have hpos : 0 < (run turns).budget := by
        unfold SetWrprotect.budget
        rw [hdone, if_neg Bool.false_ne_true]
        cases (run turns).old with
        | none => exact Nat.succ_pos 3
        | some old => exact Nat.lt_of_lt_of_le Nat.one_pos (Nat.le_add_right 1 _)
      have hfour : SetWrprotect.budget ⟨e, none, false⟩ = 4 := rfl
      change (run turns).budget + _ ≤ _ at hle
      omega
  · exact not_rw_exec turns (fun h => absurd h (by simp))
  · obtain ⟨acts, hmem, hacts, -⟩ := mem_exec turns ⟨e, none, false⟩
    rw [show (run turns).mem = _ from hmem]
    refine ⟨samePage_foldl he acts (validRun_of_forall hacts e), not_isShadow_foldl hnot acts ?_⟩
    intro hshstk
    rcases hacts _ hshstk with h | h | h <;> exact absurd h (by decide)
  · rintro before after rfl hpresent hrw
    obtain ⟨acts, hmem, hacts, -⟩ := mem_exec before ⟨e, none, false⟩
    obtain ⟨acts', hmem', hacts', -⟩ :=
      mem_exec after (turn SetWrprotect.step .store (run before))
    have hsplit : (run (before ++ .store :: after)).mem =
        (acts ++ .store :: acts').foldl PteAct.apply e := by
      show (exec SetWrprotect.step (before ++ .store :: after) ⟨e, none, false⟩).mem = _
      rw [Schedule.exec_append, List.foldl_append, List.foldl_cons, ← show (run before).mem = _ from
        hmem]
      exact hmem'
    rw [show (run before).mem = _ from hmem] at hpresent hrw
    rw [hsplit]
    refine store_stays_dirty acts acts' hpresent hrw fun hclean => ?_
    rcases hacts' _ hclean with h | h | h <;> exact absurd h (by decide)

/-- `setWrprotect_exec`, where the hardware writes to the page between the two turns of the loop. -/
theorem setWrprotect_exec_demo :
    let run (turns : List Turn) := exec SetWrprotect.step turns ⟨0x5007, none, false⟩
    let turns : List Turn := [.kernel, .store, .kernel, .load, .kernel, .kernel]
    (4 ≤ turns.count .kernel → (run turns).done = true) ∧
      ((run turns).done = true → (run turns).mem.getLsbD 1 = false) ∧
      Sound 0x5007 (run turns).mem ∧
      ∀ before after, turns = before ++ .store :: after →
        (run before).mem.getLsbD 0 = true → (run before).mem.getLsbD 1 = true →
        pteDirty (run turns).mem = true :=
  setWrprotect_exec (by decide) (by unfold IsShadow; decide) _

end KernelPortfolio
