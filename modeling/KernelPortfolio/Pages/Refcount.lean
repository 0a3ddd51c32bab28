import KernelPortfolio.Lib.Counted
import KernelPortfolio.Machine

/-!
# The drivers that count the references to a page

Four modules allocate a page, take and drop references to it, and print its count on the way.
`pageDrivers_dropWhatTheyTake` says which of them drop what they took, and touch the page only
while they own it, in every interleaving with the other holders of the page.
-/

namespace KernelPortfolio

open Counted (Code DropsWhatItTakes)

/-- Code of a module, with `struct page *` as its pointers. -/
abbrev PageCode (L : Type) : Type → Type := Code U64 L

section Calls

variable {L : Type}

/-- `printk`. -/
def printk (line : L) : PageCode L Unit := .say line (.ret ())

/-- `alloc_page(GFP_KERNEL)`. -/
def allocPage : PageCode L (Option U64) := .create .ret

/-- `get_page`. -/
def getPage (page : U64) : PageCode L Unit := .take page (.ret ())

/-- `put_page`. -/
def putPage (page : U64) : PageCode L Unit := .drop page (.ret ())

/-- `__free_pages(page, 0)`, which drops one reference, as `put_page` does. -/
def freePage (page : U64) : PageCode L Unit := .drop page (.ret ())

/-- `page_ref_count(page)`, or `atomic_read(&page->_refcount)`. -/
def pageRefCount (page : U64) : PageCode L ℤ := .read page .ret

variable {strict : Prop} {made : Option U64} {own : ℕ}

@[simp]
theorem keeps_printk (line : L) (Q : Unit → ℕ → Prop) :
    (printk line).Keeps strict made Q own ↔ Q () own := Iff.rfl

@[simp]
theorem keeps_allocPage (Q : Option U64 → ℕ → Prop) :
    (allocPage : PageCode L _).Keeps strict made Q own ↔
      own = 0 ∧ Q made (if made.isSome then 1 else 0) := Iff.rfl

@[simp]
theorem keeps_getPage (page : U64) (Q : Unit → ℕ → Prop) :
    (getPage page : PageCode L _).Keeps strict made Q own ↔
      made = some page ∧ 0 < own ∧ Q () (own + 1) := Iff.rfl

@[simp]
theorem keeps_putPage (page : U64) (Q : Unit → ℕ → Prop) :
    (putPage page : PageCode L _).Keeps strict made Q own ↔
      made = some page ∧ 0 < own ∧ Q () (own - 1) := Iff.rfl

@[simp]
theorem keeps_freePage (page : U64) (Q : Unit → ℕ → Prop) :
    (freePage page : PageCode L _).Keeps strict made Q own ↔
      made = some page ∧ 0 < own ∧ Q () (own - 1) := Iff.rfl

@[simp]
theorem keeps_pageRefCount (page : U64) (Q : ℤ → ℕ → Prop) :
    (pageRefCount page : PageCode L _).Keeps strict made Q own ↔
      made = some page ∧ (strict → 0 < own) ∧ ∀ n, Q n own := Iff.rfl

end Calls

/-- `page_to_pfn`, with `struct page`s of 64 bytes from `vmemmap` on. -/
def pageToPfn (vmemmap page : U64) : U64 := (page - vmemmap).sdiv 64

/-- `-ENOMEM`. -/
def enomem : ℤ := -12

/-! ## `struct_page_course/refcount_lab.c` -/

/-- The lines that the module prints. -/
inductive LabLine where
  | title
  | allocFailed
  | afterAlloc (ref : ℤ)
  | afterGet (ref : ℤ)
  | afterFirstPut (ref : ℤ)
  | afterSecondPut (ref : ℤ)
  | loaded
  | trace
  | unloaded
  deriving DecidableEq, Repr

/-- `refcount_lab_init`. -/
def refcountLabInit : PageCode LabLine ℤ := do
  printk .title
  let some p ← allocPage
    | printk .allocFailed
      return enomem
  let refBefore ← pageRefCount p
  printk (.afterAlloc refBefore)
  getPage p
  let refAfterGet ← pageRefCount p
  printk (.afterGet refAfterGet)
  putPage p
  let refAfterPut1 ← pageRefCount p
  printk (.afterFirstPut refAfterPut1)
  putPage p
  -- the page may be free from here on
  let refAfterPut2 ← pageRefCount p
  printk (.afterSecondPut refAfterPut2)
  -- the call of `__free_pages` is commented out
  printk .loaded
  printk .trace
  return 0

/-- `refcount_lab_exit`. -/
def refcountLabExit : PageCode LabLine Unit := printk .unloaded

/-- The module is loaded, and, where that succeeds, unloaded. -/
def refcountLabLife : PageCode LabLine Unit := do
  let ret ← refcountLabInit
  if ret = 0 then refcountLabExit

/-! ## `paging_demos/exercises_mm/page_refcount_bug.c` -/

/-- The lines that the module prints. -/
inductive BugLine where
  | start
  | allocFailed
  | page (p pfn phys : U64)
  | afterAlloc (ref : ℤ)
  | zoneDma (pfn : U64)
  | zoneDma32 (pfn : U64)
  | zoneNormal (pfn : U64)
  | beforeGet (ref : ℤ)
  | afterGet (ref : ℤ)
  | beforeFirstPut (ref : ℤ)
  | afterFirstPut (ref : ℤ)
  | beforeSecondPut (ref : ℤ)
  | afterSecondPut
  | finish
  | leak
  | unloaded
  deriving DecidableEq, Repr

/-- `refcount_bug_init`: what it returns, and `test_page`. -/
def refcountBugInit (vmemmap : U64) : PageCode BugLine (ℤ × Option U64) := do
  printk .start
  let some testPage ← allocPage
    | printk .allocFailed
      return (enomem, none)
  let pfn := pageToPfn vmemmap testPage
  let refcount ← pageRefCount testPage
  printk (.page testPage pfn (pfn * 4096))
  printk (.afterAlloc refcount)
  printk (if pfn < 4096 then .zoneDma pfn else if pfn < 1048576 then .zoneDma32 pfn
    else .zoneNormal pfn)
  printk (.beforeGet (← pageRefCount testPage))
  getPage testPage
  let refcount ← pageRefCount testPage
  printk (.afterGet refcount)
  printk (.beforeFirstPut (← pageRefCount testPage))
  putPage testPage
  let refcount ← pageRefCount testPage
  printk (.afterFirstPut refcount)
  printk (.beforeSecondPut (← pageRefCount testPage))
  putPage testPage
  printk .afterSecondPut
  -- the third `put_page` is commented out, and `test_page = NULL`
  printk .finish
  return (0, none)

/-- `refcount_bug_exit`. -/
def refcountBugExit (testPage : Option U64) : PageCode BugLine Unit := do
  if let some page := testPage then
    printk .leak
    putPage page
  printk .unloaded

/-- The module is loaded, and, where that succeeds, unloaded. -/
def refcountBugLife (vmemmap : U64) : PageCode BugLine Unit := do
  let (ret, testPage) ← refcountBugInit vmemmap
  if ret = 0 then refcountBugExit testPage

/-! ## `refcount_exercise/refcount_hw.c` -/

/-- The lines that the module prints. -/
inductive RefcountLine where
  | init
  | allocFail
  | alloc (page pfn : U64) (ref : ℤ)
  | beforeGet (ref : ℤ)
  | afterGet (ref : ℤ)
  | afterFirstPut (ref : ℤ)
  | done
  | exit
  | pageFreedInExit
  deriving DecidableEq, Repr

/-- `refcount_init`: what it returns, and `my_page`. -/
def refcountInit (vmemmap : U64) : PageCode RefcountLine (ℤ × Option U64) := do
  printk .init
  let some page ← allocPage
    | printk .allocFail
      return (enomem, none)
  let pfn := pageToPfn vmemmap page
  let ref ← pageRefCount page
  printk (.alloc page pfn ref)
  printk (.beforeGet (← pageRefCount page))
  getPage page
  printk (.afterGet (← pageRefCount page))
  putPage page
  printk (.afterFirstPut (← pageRefCount page))
  printk .done
  return (0, some page)

/-- `refcount_exit`. -/
def refcountExit (myPage : Option U64) : PageCode RefcountLine Unit := do
  printk .exit
  if let some page := myPage then
    putPage page
    printk .pageFreedInExit

/-- The module is loaded, and, where that succeeds, unloaded. -/
def refcountLife (vmemmap : U64) : PageCode RefcountLine Unit := do
  let (ret, myPage) ← refcountInit vmemmap
  if ret = 0 then refcountExit myPage

/-! ## `kernel_exercises/struct_page_driver/page_labs.c` -/

/-- The lines that the module prints. -/
inductive PageLabsLine where
  | starting
  | allocFailed
  | page (p pfn : U64)
  | phys (addr : U64)
  | afterGet (ref : ℤ)
  | pageFreed
  | unloaded
  deriving DecidableEq, Repr

/-- `page_labs_init`. -/
def pageLabsInit (vmemmap : U64) : PageCode PageLabsLine ℤ := do
  printk .starting
  let some p ← allocPage
    | printk .allocFailed
      return enomem
  let pfn := pageToPfn vmemmap p
  printk (.page p pfn)
  printk (.phys (pfn * 4096))
  getPage p
  printk (.afterGet (← pageRefCount p))
  -- `if (p)`, which holds here
  putPage p
  freePage p
  printk .pageFreed
  return 0

/-- `page_labs_exit`. -/
def pageLabsExit : PageCode PageLabsLine Unit := printk .unloaded

/-- The module is loaded, and, where that succeeds, unloaded. -/
def pageLabsLife (vmemmap : U64) : PageCode PageLabsLine Unit := do
  let ret ← pageLabsInit vmemmap
  if ret = 0 then pageLabsExit

/-! ## What the drivers own -/

section Keeps

variable (strict : Prop) (made : Option U64) (vmemmap : U64)

/-- `refcount_lab_init` drops what it takes. Its last read comes when it owns nothing. -/
theorem keeps_refcountLabInit (h : strict → made = none) :
    refcountLabInit.Keeps strict made (fun _ own => own = 0) 0 := by
  cases made with
  | none => simp [refcountLabInit]
  | some p =>
    -- the hypothesis leaves the reads of a page unchecked
    have hstrict : ¬ strict := fun hs => Option.some_ne_none p (h hs)
    simp [refcountLabInit, hstrict]

/-- `refcount_bug_init` drops what it takes, and forgets the page. -/
theorem keeps_refcountBugInit :
    (refcountBugInit vmemmap).Keeps strict made (fun r own => own = 0 ∧ r.2 = none) 0 := by
  cases made with
  | none => simp [refcountBugInit]
  | some p => simp [refcountBugInit]

/-- `refcount_init` keeps one reference, for `refcount_exit`, or fails and has none. -/
theorem keeps_refcountInit :
    (refcountInit vmemmap).Keeps strict made
      (fun r own => (r.1 = 0 → r.2 = made ∧ made ≠ none ∧ own = 1) ∧ (r.1 ≠ 0 → own = 0)) 0 := by
  cases made with
  | none => simp [refcountInit, enomem]
  | some p => simp [refcountInit]

/-- `refcount_exit` drops the reference of `refcount_init`. -/
theorem keeps_refcountExit {page : U64} (h : made = some page) :
    (refcountExit made).Keeps strict made (fun _ own => own = 0) 1 := by
  subst h
  simp [refcountExit]

/-- `page_labs_init` drops what it takes. -/
theorem keeps_pageLabsInit :
    (pageLabsInit vmemmap).Keeps strict made (fun _ own => own = 0) 0 := by
  cases made with
  | none => simp [pageLabsInit]
  | some p => simp [pageLabsInit]

/-- A module that owns nothing after its init, and prints in its exit, drops what it takes. -/
theorem keeps_printingExit {L : Type} {strict : Prop} {made : Option U64} {init : PageCode L ℤ}
    (line : L) (h : init.Keeps strict made (fun _ own => own = 0) 0) :
    (do
      let ret ← init
      if ret = 0 then printk line : PageCode L Unit).Keeps strict made
        (fun _ own => own = 0) 0 := by
  rw [Counted.keeps_bind]
  refine h.mono fun ret own hown => ?_
  split_ifs
  · exact hown
  · exact hown

/-- `refcount_lab` drops what it takes. -/
theorem keeps_refcountLabLife (h : strict → made = none) :
    refcountLabLife.Keeps strict made (fun _ own => own = 0) 0 :=
  keeps_printingExit LabLine.unloaded (keeps_refcountLabInit strict made h)

/-- `page_refcount_bug` drops what it takes. -/
theorem keeps_refcountBugLife :
    (refcountBugLife vmemmap).Keeps strict made (fun _ own => own = 0) 0 := by
  unfold refcountBugLife
  rw [Counted.keeps_bind]
  refine (keeps_refcountBugInit strict made vmemmap).mono fun r own hr => ?_
  obtain ⟨ret, testPage⟩ := r
  obtain ⟨hown, rfl⟩ := hr
  simp only
  split_ifs
  · exact hown
  · exact hown

/-- `refcount_hw` drops in its exit what it still has. -/
theorem keeps_refcountLife :
    (refcountLife vmemmap).Keeps strict made (fun _ own => own = 0) 0 := by
  unfold refcountLife
  rw [Counted.keeps_bind]
  refine (keeps_refcountInit strict made vmemmap).mono fun r own hr => ?_
  obtain ⟨ret, myPage⟩ := r
  obtain ⟨hloaded, hfailed⟩ := hr
  simp only at hloaded hfailed ⊢
  split_ifs with hret
  · obtain ⟨rfl, hmade, rfl⟩ := hloaded hret
    obtain ⟨page, hpage⟩ := Option.ne_none_iff_exists'.mp hmade
    exact keeps_refcountExit strict _ hpage
  · exact hfailed hret

/-- `page_labs` drops what it takes. -/
theorem keeps_pageLabsLife :
    (pageLabsLife vmemmap).Keeps strict made (fun _ own => own = 0) 0 :=
  keeps_printingExit PageLabsLine.unloaded (keeps_pageLabsInit strict made vmemmap)

end Keeps

/-- `refcount_lab`, too, keeps the count and drops what it takes in every interleaving. -/
theorem refcountLabLife_balanced (made : Option U64) (sched : List Counted.Actor) :
    let s := Schedule.exec (Counted.step made) sched (.start refcountLabLife)
    0 ≤ s.count ∧ (s.Returned → s.dropped = s.taken) := by
  have hkeeps := keeps_refcountLabLife False made False.elim
  exact ⟨hkeeps.count_nonneg sched, hkeeps.balanced⟩

/-- But its last read comes when its references are dropped. -/
theorem refcountLabLife_touches (p : U64) :
    ¬ Schedule.Along (Counted.step (some p)) (Counted.TouchesOwned (some p)) (.replicate 12 .owner)
      (.start refcountLabLife) := by
  intro h
  -- eleven steps of the owner lead to the read, with two references taken and two dropped
  have hread := Schedule.along_iff.mp h (.replicate 11 .owner) .owner [] rfl rfl rfl p rfl
  exact Nat.lt_irrefl 2 hread.2

/-- Whatever `alloc_page` returns, and in every interleaving with the other holders of the page,
three of the modules drop what they take, leave the count at zero or above, and touch the page only
while they own it; `refcount_lab` does so exactly when it gets no page. -/
theorem pageDrivers_dropWhatTheyTake (made : Option U64) (vmemmap : U64) :
    (DropsWhatItTakes made refcountLabLife ↔ made = none) ∧
    DropsWhatItTakes made (refcountBugLife vmemmap) ∧
    DropsWhatItTakes made (refcountLife vmemmap) ∧
    DropsWhatItTakes made (pageLabsLife vmemmap) := by
  refine ⟨⟨fun h => ?_, fun h => ?_⟩, ?_, ?_, ?_⟩
  · cases made with
    | none => rfl
    | some p => exact absurd (h.touches _) (refcountLabLife_touches p)
  · exact (keeps_refcountLabLife True made fun _ => h).dropsWhatItTakes
  · exact (keeps_refcountBugLife True made vmemmap).dropsWhatItTakes
  · exact (keeps_refcountLife True made vmemmap).dropsWhatItTakes
  · exact (keeps_pageLabsLife True made vmemmap).dropsWhatItTakes

/-- `refcount_lab` with a page that nobody else holds. -/
theorem refcountLab_not_dropsWhatItTakes :
    ¬ DropsWhatItTakes (some 0xFFFFEA0000040000) refcountLabLife :=
  fun h => refcountLabLife_touches _ (h.touches _)

end KernelPortfolio
