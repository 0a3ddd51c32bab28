import KernelPortfolio.Lib.Trace
import KernelPortfolio.Pages.PageArray
import KernelPortfolio.Pages.Refcount

/-!
# The exercises on the buddy allocator

Two modules allocate single pages, one of them also a block of order 3, and free them again, with
loops over the array that are meant to show how buddies coalesce. `buddyDrivers_freeOnce` is about
the memory: whatever the allocator returns, every block is freed once.
`buddyFragmentInit_tellsTruth_iff` is about the lines that `buddy_fragment.c` prints of the
buddies, which it takes from the indices in the array, and which depend on the frames that the
allocator chose.
-/

namespace KernelPortfolio

open PageArray
open Trace (Each)

/-- A loop without lines. -/
def noLines {L : Type} (_ : ℕ) (_ : U64) : List L := []

/-! ## `paging_demos/exercises_mm/buddy_fragment.c` -/

/-- The lines that the module prints. -/
inductive FragmentLine where
  | start
  | step1
  | allocFailed (i : ℕ)
  | page (i : ℕ) (pfn : U64)
  | step2
  | stillAllocated (i : ℕ) (pfn : U64)
  | step3
  | alreadyFree (i : ℕ) (pfn : U64)
  | step4
  | finish
  | unloaded
  deriving DecidableEq, Repr

/-- The `static struct page *pages[NUM_PAGES]`, before the module is loaded. -/
def staticPages : PageArray FragmentLine := ⟨fun _ => .null, []⟩

/-- The odd indices below `n`, in the order of `for (i = 1; i < n; i += 2)`. -/
def oddIndices (n : ℕ) : List ℕ := List.range' 1 (n / 2) 2

/-- The even indices below `n`, in the order of `for (i = 0; i < n; i += 2)`. -/
def evenIndices (n : ℕ) : List ℕ := List.range' 0 ((n + 1) / 2) 2

/-- `buddy_fragment_init`, with `NUM_PAGES` pages, where the allocator returns `alloc i` to the
allocation of `pages[i]`. -/
def buddyFragmentInit (alloc : ℕ → Option U64) (numPages : ℕ) (s : PageArray FragmentLine) :
    ℤ × PageArray FragmentLine :=
  let s := s.emit [.say .start, .say .step1]
  match allocPages .allocFailed .page alloc numPages 0 s with
  -- fail:
  | (some _, s) => (enomem, releasePages true true noLines (List.range numPages) s)
  | (none, s) =>
    let s := s.emit [.say .step2]
    let s := releasePages false true (fun i pfn => [.stillAllocated i pfn]) (oddIndices numPages) s
    let s := s.emit [.say .step3]
    let s := releasePages true true (fun i pfn => [.alreadyFree i pfn]) (evenIndices numPages) s
    (0, s.emit [.say .step4, .say .finish])

/-- `buddy_fragment_exit`. -/
def buddyFragmentExit (numPages : ℕ) (s : PageArray FragmentLine) : PageArray FragmentLine :=
  (releasePages true true noLines (List.range numPages) s).emit [.say .unloaded]

/-- The module is loaded, and, where that succeeds, unloaded. -/
def buddyFragmentLife (alloc : ℕ → Option U64) (numPages : ℕ) : PageArray FragmentLine :=
  let (ret, s) := buddyFragmentInit alloc numPages staticPages
  if ret = 0 then buddyFragmentExit numPages s else s

/-! ## `kernel_exercises/buddy_fragment/buddy_fragment.c` -/

/-- The lines that the module prints. -/
inductive BuddyLine where
  | init
  | order3Failed
  | order3 (pfn : U64)
  | order0Failed (i : ℕ)
  | order0 (i : ℕ) (pfn : U64)
  | freeingOrder0 (i : ℕ) (pfn : U64)
  | freeingOrder3 (pfn : U64)
  | complete
  deriving DecidableEq, Repr

/-- `struct page *pages[4]`, on the stack. -/
def stackPages : PageArray BuddyLine := ⟨fun _ => .unassigned, []⟩

/-- `buddy_frag_init`, with `numPages` single pages, where the allocator returns `order3` to the
first allocation, and `alloc i` to that of `pages[i]`. -/
def buddyFragInit (order3 : Option U64) (alloc : ℕ → Option U64) (numPages : ℕ)
    (s : PageArray BuddyLine) : ℤ × PageArray BuddyLine :=
  let s := s.emit [.say .init]
  match order3 with
  | none => (enomem, s.emit [.alloc 3 none, .say .order3Failed])
  | some pfn =>
    let s := s.emit [.alloc 3 (some pfn), .say (.order3 pfn)]
    match allocPages .order0Failed .order0 alloc numPages 0 s with
    -- cleanup: from `i - 1` down to 0
    | (some i, s) =>
      (enomem, (releasePages false false noLines (List.range i).reverse s).emit [.free ⟨pfn, 3⟩])
    | (none, s) =>
      let s :=
        releasePages false false (fun i pfn => [.freeingOrder0 i pfn]) (List.range numPages) s
      (0, s.emit [.say (.freeingOrder3 pfn), .free ⟨pfn, 3⟩, .say .complete])

/-! ## Every block is freed once -/

/-- The odd indices. -/
@[simp]
theorem mem_oddIndices {n i : ℕ} : i ∈ oddIndices n ↔ i < n ∧ i % 2 = 1 := by
  unfold oddIndices
  rw [List.mem_range']
  constructor
  · rintro ⟨k, hk, rfl⟩
    omega
  · rintro ⟨hi, hodd⟩
    exact ⟨i / 2, by omega, by omega⟩

/-- The even indices. -/
@[simp]
theorem mem_evenIndices {n i : ℕ} : i ∈ evenIndices n ↔ i < n ∧ i % 2 = 0 := by
  unfold evenIndices
  rw [List.mem_range']
  constructor
  · rintro ⟨k, hk, rfl⟩
    omega
  · rintro ⟨hi, heven⟩
    exact ⟨i / 2, by omega, by omega⟩

/-- The odd indices increase. -/
theorem oddIndices_pairwise_lt (n : ℕ) : (oddIndices n).Pairwise (· < ·) :=
  List.pairwise_lt_range' 2

/-- The even indices increase. -/
theorem evenIndices_pairwise_lt (n : ℕ) : (evenIndices n).Pairwise (· < ·) :=
  List.pairwise_lt_range' 2

/-- The odd and the even indices are all of them. -/
theorem oddIndices_append_evenIndices_perm (n : ℕ) :
    (oddIndices n ++ evenIndices n).Perm (List.range n) := by
  have hnodup : (oddIndices n ++ evenIndices n).Nodup := by
    refine List.nodup_append.mpr ⟨List.nodup_range' 2, List.nodup_range' 2, ?_⟩
    intro i hi j hj
    rw [mem_oddIndices] at hi
    rw [mem_evenIndices] at hj
    omega
  refine (List.perm_ext_iff_of_nodup hnodup List.nodup_range).mpr fun i => ?_
  rw [List.mem_append, mem_oddIndices, mem_evenIndices, List.mem_range]
  omega

/-- The log of `buddy_fragment_init` when all pages are allocated. -/
def fragmentLog (pfn : ℕ → U64) (n : ℕ) : List (PageEvent FragmentLine) :=
  [.say .start, .say .step1] ++ (List.range n).flatMap (allocEvents .page pfn) ++ [.say .step2] ++
    (oddIndices n).flatMap (releaseEvents (fun i p => [.stillAllocated i p]) pfn) ++
    [.say .step3] ++ (evenIndices n).flatMap (releaseEvents (fun i p => [.alreadyFree i p]) pfn) ++
    [.say .step4, .say .finish]

/-- The log of `buddy_fragment_init` when the allocation of page `k` fails. -/
def fragmentFailLog (pfn : ℕ → U64) (k : ℕ) : List (PageEvent FragmentLine) :=
  [.say .start, .say .step1] ++ (List.range k).flatMap (allocEvents .page pfn) ++
    [.alloc 0 none, .say (.allocFailed k)] ++ (List.range k).flatMap (releaseEvents noLines pfn)

/-- The indices of the odd loop are distinct. -/
theorem oddIndices_nodup (n : ℕ) : (oddIndices n).Nodup := List.nodup_range' 2

/-- The indices of the even loop are distinct. -/
theorem evenIndices_nodup (n : ℕ) : (evenIndices n).Nodup := List.nodup_range' 2

/-- With all pages allocated, the two strided loops release all of them. -/
theorem buddyFragmentInit_of_all {alloc : ℕ → Option U64} {pfn : ℕ → U64} {n : ℕ}
    (h : ∀ j < n, alloc j = some (pfn j)) :
    buddyFragmentInit alloc n staticPages = (0, ⟨fun _ => .null, fragmentLog pfn n⟩) := by
  simp only [buddyFragmentInit, allocPages_of_all _ h]
  rw [releasePages_eq pfn _ (oddIndices_nodup n) fun i hi => if_pos (mem_oddIndices.mp hi).1,
    releasePages_eq pfn _ (evenIndices_nodup n) fun i hi => ?_]
  · refine Prod.ext rfl (congrArg₂ PageArray.mk (funext fun j => ?_) rfl)
    simp only [PageArray.emit_pages, mem_oddIndices, mem_evenIndices, true_and]
    split_ifs <;> first | rfl | omega
  · -- the even pages are not among those that the first loop clears
    obtain ⟨hlt, heven⟩ := mem_evenIndices.mp hi
    simp only [PageArray.emit_pages, mem_oddIndices, true_and]
    rw [if_neg (by omega), if_pos hlt]

/-- When an allocation fails, the last loop releases what was allocated before. -/
theorem buddyFragmentInit_of_fail {alloc : ℕ → Option U64} {pfn : ℕ → U64} {n k : ℕ} (hk : k < n)
    (h : ∀ j < k, alloc j = some (pfn j)) (hfail : alloc k = none) :
    buddyFragmentInit alloc n staticPages = (enomem, ⟨fun _ => .null, fragmentFailLog pfn k⟩) := by
  obtain ⟨m, rfl⟩ := Nat.exists_eq_add_of_le hk.le
  simp only [buddyFragmentInit, allocPages_of_fail _ hk h hfail]
  -- the pages before the failure, and the rest of the array
  rw [List.range_add, releasePages_append,
    releasePages_eq pfn _ List.nodup_range fun i hi => if_pos (List.mem_range.mp hi),
    releasePages_null fun i hi => ?_]
  · refine Prod.ext rfl (congrArg₂ PageArray.mk (funext fun j => ?_) rfl)
    simp only [List.mem_range, true_and]
    split_ifs <;> rfl
  · simp only [List.mem_range, true_and]
    split_ifs <;> rfl

/-- The log of `buddy_fragment_init` frees what it allocates, also with more lines after it. -/
theorem fragmentLog_freesOnce (pfn : ℕ → U64) (n : ℕ) (lines : List FragmentLine) :
    FreesOnce (fragmentLog pfn n ++ lines.map .say) := by
  constructor
  · have hperm : (singlePages pfn (List.range n)).Perm
        (singlePages pfn (oddIndices n) ++ singlePages pfn (evenIndices n)) := by
      unfold singlePages
      rw [← List.map_append]
      exact ((oddIndices_append_evenIndices_perm n).map _).symm
    simpa [fragmentLog] using Ledger.balanced_of_perm hperm
  · simp [fragmentLog]

/-- So does the log of one that fails. -/
theorem fragmentFailLog_freesOnce (pfn : ℕ → U64) (k : ℕ) : FreesOnce (fragmentFailLog pfn k) := by
  constructor
  · have hperm := List.Perm.refl (singlePages pfn (List.range k))
    simpa [fragmentFailLog] using Ledger.balanced_of_perm hperm
  · simp [fragmentFailLog]

/-- Loading and unloading `buddy_fragment.c`. -/
theorem buddyFragmentLife_freesOnce (alloc : ℕ → Option U64) (n : ℕ) :
    FreesOnce (buddyFragmentLife alloc n).log := by
  unfold buddyFragmentLife
  obtain ⟨pfn, hall | ⟨k, hk, hfirst, hfail⟩⟩ := PageArray.exists_first_fail alloc n
  · -- all slots are empty when the module is unloaded
    rw [buddyFragmentInit_of_all hall]
    simp only [if_pos, buddyFragmentExit]
    rw [releasePages_null fun _ _ => rfl]
    exact fragmentLog_freesOnce pfn n [.unloaded]
  · rw [buddyFragmentInit_of_fail hk hfirst hfail]
    exact fragmentFailLog_freesOnce pfn k

/-- Whatever the allocator returns, `buddy_fragment_init` leaves no page in the array. -/
theorem buddyFragmentInit_pages (alloc : ℕ → Option U64) (n i : ℕ) :
    (buddyFragmentInit alloc n staticPages).2.pages i = .null := by
  obtain ⟨pfn, hall | ⟨k, hk, hfirst, hfail⟩⟩ := PageArray.exists_first_fail alloc n
  · rw [buddyFragmentInit_of_all hall]
  · rw [buddyFragmentInit_of_fail hk hfirst hfail]

/-- Loading `kernel_exercises/buddy_fragment/buddy_fragment.c`. -/
theorem buddyFragInit_freesOnce (order3 : Option U64) (alloc : ℕ → Option U64) (n : ℕ) :
    FreesOnce (buddyFragInit order3 alloc n stackPages).2.log := by
  cases order3 with
  | none => exact ⟨Ledger.leaves_zero_iff.mp Ledger.leaves_nil, by simp [buddyFragInit, stackPages]⟩
  | some p =>
    obtain ⟨pfn, hall | ⟨k, hk, hfirst, hfail⟩⟩ := PageArray.exists_first_fail alloc n
    · simp only [buddyFragInit, allocPages_of_all _ hall]
      rw [releasePages_eq pfn _ List.nodup_range fun i hi => if_pos (List.mem_range.mp hi)]
      have hperm : (⟨p, 3⟩ :: singlePages pfn (List.range n)).Perm
          (singlePages pfn (List.range n) ++ [⟨p, 3⟩]) := (List.perm_append_singleton _ _).symm
      constructor
      · simpa [stackPages] using Ledger.balanced_of_perm hperm
      · simp [stackPages]
    · simp only [buddyFragInit, allocPages_of_fail _ hk hfirst hfail]
      rw [releasePages_eq pfn _ (List.nodup_reverse.mpr List.nodup_range) fun i hi =>
        if_pos (List.mem_range.mp (List.mem_reverse.mp hi))]
      have hperm : (⟨p, 3⟩ :: singlePages pfn (List.range k)).Perm
          (singlePages pfn (List.range k).reverse ++ [⟨p, 3⟩]) := by
        refine ((List.perm_append_singleton _ _).trans ((List.Perm.cons _ ?_))).symm
        exact (List.reverse_perm _).map _
      constructor
      · simpa [stackPages] using Ledger.balanced_of_perm hperm
      · simp [stackPages]

/-- Whatever the allocator returns, and with any number of pages, the two modules free every block
that they allocate once, with its order, and nothing else, and no slot of their arrays is used
before it is assigned. `buddy_fragment_init` returns with an empty array. -/
theorem buddyDrivers_freeOnce (order3 : Option U64) (alloc : ℕ → Option U64) (n : ℕ) :
    FreesOnce (buddyFragmentLife alloc n).log ∧
      FreesOnce (buddyFragInit order3 alloc n stackPages).2.log ∧
      ∀ i < n, (buddyFragmentInit alloc n staticPages).2.pages i = .null :=
  ⟨buddyFragmentLife_freesOnce alloc n, buddyFragInit_freesOnce order3 alloc n,
    fun i _ => buddyFragmentInit_pages alloc n i⟩

/-! ## What `buddy_fragment.c` says of the buddies -/

/-- Whether a frame is allocated when a line is printed: a page of the array until it is freed, and
another frame as `others` says. -/
def Allocated (others : FragmentLine → U64 → Bool) (pre : List (PageEvent FragmentLine))
    (line : FragmentLine) (frame : U64) : Prop :=
  if .take ⟨frame, 0⟩ ∈ blockOps pre then
    Ledger.drops ⟨frame, 0⟩ (blockOps pre) < Ledger.takes ⟨frame, 0⟩ (blockOps pre)
  else others line frame = true

/-- What a line says of the buddy is true when it is printed. -/
def TrueLine (others : FragmentLine → U64 → Bool) (pre : List (PageEvent FragmentLine)) :
    PageEvent FragmentLine → Prop
  | .say (.stillAllocated i pfn) => Allocated others pre (.stillAllocated i pfn) (pfn ^^^ 1)
  | .say (.alreadyFree i pfn) => ¬ Allocated others pre (.alreadyFree i pfn) (pfn ^^^ 1)
  | _ => True

/-- Every line about a buddy is true when it is printed. -/
def TellsTruth (others : FragmentLine → U64 → Bool) (log : List (PageEvent FragmentLine)) : Prop :=
  Each (TrueLine others) log

/-- The line about the buddy of `pages[i]`. -/
def buddyLine (i : ℕ) (pfn : U64) : FragmentLine :=
  if i % 2 = 1 then .stillAllocated i pfn else .alreadyFree i pfn

/-- The buddy of every page is a page of the array with an index of the other parity, or it is no
page of the array, and allocated or free as the line says. -/
def BuddiesPaired (others : FragmentLine → U64 → Bool) (alloc : ℕ → Option U64) (n : ℕ) : Prop :=
  ∀ i < n, ∀ pfn ∈ alloc i,
    (∃ j < n, alloc j = some (pfn ^^^ 1) ∧ j % 2 ≠ i % 2) ∨
    ((∀ j < n, alloc j ≠ some (pfn ^^^ 1)) ∧
      others (buddyLine i pfn) (pfn ^^^ 1) = decide (i % 2 = 1))

/-- The buddies are paired, as the allocated pages have it. -/
theorem buddiesPaired_iff {others : FragmentLine → U64 → Bool} {pfn : ℕ → U64}
    {alloc : ℕ → Option U64} {n : ℕ} (hall : ∀ j < n, alloc j = some (pfn j)) :
    BuddiesPaired others alloc n ↔ ∀ i < n,
      (∃ j < n, pfn j = pfn i ^^^ 1 ∧ j % 2 ≠ i % 2) ∨ (∀ j < n, pfn j ≠ pfn i ^^^ 1) ∧
        others (buddyLine i (pfn i)) (pfn i ^^^ 1) = decide (i % 2 = 1) := by
  refine forall₂_congr fun i hi => ?_
  simp only [hall i hi, Option.mem_def, Option.some.injEq, forall_eq']
  refine or_congr (exists_congr fun j => and_congr_right fun hj => ?_)
    (and_congr_left fun _ => forall₂_congr fun j hj => ?_)
  · rw [hall j hj, Option.some.injEq]
  · rw [hall j hj, ne_eq, Option.some.injEq]

/-- The buddy of the buddy. -/
theorem xor_one_xor_one (pfn : U64) : pfn ^^^ 1 ^^^ 1 = pfn := by
  rw [BitVec.xor_assoc, BitVec.xor_self, BitVec.xor_zero]

/-- No page is its own buddy. -/
theorem xor_one_ne (pfn : U64) : pfn ^^^ 1 ≠ pfn := by
  intro h
  have hone := congrArg (pfn ^^^ ·) h
  simp only [← BitVec.xor_assoc, BitVec.xor_self, BitVec.zero_xor] at hone
  exact absurd hone (by decide)

/-- The buddy of page `i` is a page of the array that is still held, or it is none of them, and
allocated by others. -/
def BuddyAllocated (others : FragmentLine → U64 → Bool) (pfn : ℕ → U64) (n : ℕ) (held : ℕ → Prop)
    (i : ℕ) (line : FragmentLine) : Prop :=
  (∃ j < n, pfn j = pfn i ^^^ 1 ∧ held j) ∨
    (∀ j < n, pfn j ≠ pfn i ^^^ 1) ∧ others line (pfn i ^^^ 1) = true

/-- A buddy that is no page of the array. -/
theorem buddyAllocated_iff_others {others : FragmentLine → U64 → Bool} {pfn : ℕ → U64} {n i : ℕ}
    (hno : ∀ j < n, pfn j ≠ pfn i ^^^ 1) (held : ℕ → Prop) (line : FragmentLine) :
    BuddyAllocated others pfn n held i line ↔ others line (pfn i ^^^ 1) = true := by
  unfold BuddyAllocated
  have hnone : ¬∃ j < n, pfn j = pfn i ^^^ 1 ∧ held j := by
    rintro ⟨j, hj, hbuddy, -⟩
    exact hno j hj hbuddy
  rw [or_iff_right hnone, and_iff_right hno]

/-- Of the two events of a release, the line is the first. -/
theorem each_release_iff {others : FragmentLine → U64 → Bool} {b : Block}
    (pre mid : List (PageEvent FragmentLine)) (line : FragmentLine) :
    Each (fun before => TrueLine others (pre ++ (mid ++ before))) [.say line, .free b] ↔
      TrueLine others (pre ++ mid) (.say line) := by
  have hfree : ∀ before, TrueLine others before (.free b) := fun _ => trivial
  simp only [Trace.each_cons, Trace.each_nil, hfree, List.append_nil, and_true]

section Frames

variable {others : FragmentLine → U64 → Bool} {pfn : ℕ → U64} {n : ℕ}
  (hinj : ∀ i < n, ∀ j < n, pfn i = pfn j → i = j)

include hinj

/-- How often a frame is among the pages with the indices `is`. -/
theorem count_singlePages {is : List ℕ} (hnodup : is.Nodup) (hlt : ∀ i ∈ is, i < n) {j : ℕ}
    (hj : j < n) : (singlePages pfn is).count ⟨pfn j, 0⟩ = if j ∈ is then 1 else 0 := by
  have hmap : (singlePages pfn is).Nodup := by
    refine List.Nodup.map_on (fun a ha b hb hab => ?_) hnodup
    exact hinj a (hlt a ha) b (hlt b hb) (Block.mk.inj hab).1
  rw [hmap.count]
  refine if_congr ?_ rfl rfl
  unfold singlePages
  rw [List.mem_map]
  constructor
  · rintro ⟨i, hi, heq⟩
    obtain rfl := hinj i (hlt i hi) j hj (Block.mk.inj heq).1
    exact hi
  · exact fun hi => ⟨j, hi, rfl⟩

/-- After the pages `is` have been freed, a frame is allocated if it is another page of the array,
or none, and allocated by others. -/
theorem allocated_iff {pre : List (PageEvent FragmentLine)} {is : List ℕ} (hnodup : is.Nodup)
    (hlt : ∀ i ∈ is, i < n)
    (hops : blockOps pre = (singlePages pfn (List.range n)).map Ledger.Op.take ++
      (singlePages pfn is).map Ledger.Op.drop) (line : FragmentLine) (frame : U64) :
    Allocated others pre line frame ↔
      (∃ j < n, pfn j = frame ∧ j ∉ is) ∨
        (∀ j < n, pfn j ≠ frame) ∧ others line frame = true := by
  have hmem : .take ⟨frame, 0⟩ ∈ blockOps pre ↔ ∃ j < n, pfn j = frame := by
    simp [hops, singlePages]
  unfold Allocated
  by_cases h : ∃ j < n, pfn j = frame
  · rw [if_pos (hmem.mpr h)]
    obtain ⟨j, hj, rfl⟩ := h
    rw [hops, Ledger.takes_append, Ledger.drops_append, Ledger.takes_map_take,
      Ledger.drops_map_take, Ledger.takes_map_drop, Ledger.drops_map_drop,
      count_singlePages hinj hnodup hlt hj,
      count_singlePages hinj List.nodup_range (fun i hi => List.mem_range.mp hi) hj,
      if_pos (List.mem_range.mpr hj)]
    constructor
    · intro hlt'
      refine .inl ⟨j, hj, rfl, fun hji => ?_⟩
      rw [if_pos hji] at hlt'
      omega
    · rintro (⟨j', hj', heq, hji⟩ | ⟨hno, -⟩)
      · obtain rfl := hinj j' hj' j hj heq
        rw [if_neg hji]
        omega
      · exact absurd rfl (hno j hj)
  · rw [if_neg fun hm => h (hmem.mp hm)]
    simp only [not_exists, not_and] at h
    constructor
    · exact fun ho => .inr ⟨h, ho⟩
    · rintro (⟨j, hj, heq, -⟩ | ⟨-, ho⟩)
      · exact absurd heq (h j hj)
      · exact ho

/-- A line of the odd loop is true when the buddy is a page that is not freed before, or a frame
that others hold. -/
theorem trueLine_stillAllocated_iff {pre : List (PageEvent FragmentLine)} {i : ℕ}
    (hops : blockOps pre = (singlePages pfn (List.range n)).map Ledger.Op.take ++
      (singlePages pfn ((oddIndices n).filter (· < i))).map Ledger.Op.drop) :
    TrueLine others pre (.say (.stillAllocated i (pfn i))) ↔
      BuddyAllocated others pfn n (fun j => ¬(j % 2 = 1 ∧ j < i)) i
        (.stillAllocated i (pfn i)) := by
  refine (allocated_iff hinj ((oddIndices_nodup n).filter _) (fun j hj => ?_) hops _ _).trans ?_
  · exact (mem_oddIndices.mp (List.mem_filter.mp hj).1).1
  · simp only [List.mem_filter, mem_oddIndices, decide_eq_true_eq]
    refine or_congr_left (exists_congr fun j => and_congr_right fun hj =>
      and_congr_right fun _ => ?_)
    omega

/-- A line of the even loop is true unless the buddy is a page that is not freed before, or a frame
that others hold. -/
theorem trueLine_alreadyFree_iff {pre : List (PageEvent FragmentLine)} {i : ℕ}
    (hops : blockOps pre = (singlePages pfn (List.range n)).map Ledger.Op.take ++
      (singlePages pfn (oddIndices n ++ (evenIndices n).filter (· < i))).map Ledger.Op.drop) :
    TrueLine others pre (.say (.alreadyFree i (pfn i))) ↔
      ¬ BuddyAllocated others pfn n (fun j => j % 2 = 0 ∧ i ≤ j) i
        (.alreadyFree i (pfn i)) := by
  have hnodup : (oddIndices n ++ (evenIndices n).filter (· < i)).Nodup := by
    refine List.nodup_append.mpr ⟨oddIndices_nodup n, (evenIndices_nodup n).filter _, ?_⟩
    intro a ha b hb
    have hodd := (mem_oddIndices.mp ha).2
    have heven := (mem_evenIndices.mp (List.mem_filter.mp hb).1).2
    omega
  refine not_congr ((allocated_iff hinj hnodup (fun j hj => ?_) hops _ _).trans ?_)
  · rw [List.mem_append, List.mem_filter, mem_oddIndices, mem_evenIndices] at hj
    omega
  · simp only [List.mem_append, List.mem_filter, mem_oddIndices, mem_evenIndices,
      decide_eq_true_eq]
    refine or_congr_left (exists_congr fun j => and_congr_right fun hj =>
      and_congr_right fun _ => ?_)
    omega

/-- The lines of the odd loop, after the allocations. -/
theorem each_stillAllocated_iff {pre : List (PageEvent FragmentLine)}
    (hops : blockOps pre = (singlePages pfn (List.range n)).map Ledger.Op.take) :
    Each (fun before => TrueLine others (pre ++ before))
        ((oddIndices n).flatMap (releaseEvents (fun i p => [.stillAllocated i p]) pfn)) ↔
      ∀ i < n, i % 2 = 1 → BuddyAllocated others pfn n (fun j => ¬(j % 2 = 1 ∧ j < i)) i
        (.stillAllocated i (pfn i)) := by
  rw [Trace.each_flatMap, Trace.each_iff_of_pairwise_lt (oddIndices_pairwise_lt n)]
  simp only [mem_oddIndices, and_imp]
  refine forall₃_congr fun i _ _ => ?_
  refine Iff.trans (each_release_iff _ _ _) (trueLine_stillAllocated_iff hinj ?_)
  rw [blockOps_append, hops, blockOps_releaseEvents]

/-- The lines of the even loop, after the odd loop. -/
theorem each_alreadyFree_iff {pre : List (PageEvent FragmentLine)}
    (hops : blockOps pre = (singlePages pfn (List.range n)).map Ledger.Op.take ++
      (singlePages pfn (oddIndices n)).map Ledger.Op.drop) :
    Each (fun before => TrueLine others (pre ++ before))
        ((evenIndices n).flatMap (releaseEvents (fun i p => [.alreadyFree i p]) pfn)) ↔
      ∀ i < n, i % 2 = 0 → ¬ BuddyAllocated others pfn n (fun j => j % 2 = 0 ∧ i ≤ j) i
        (.alreadyFree i (pfn i)) := by
  rw [Trace.each_flatMap, Trace.each_iff_of_pairwise_lt (evenIndices_pairwise_lt n)]
  simp only [mem_evenIndices, and_imp]
  refine forall₃_congr fun i _ _ => ?_
  refine Iff.trans (each_release_iff _ _ _) (trueLine_alreadyFree_iff hinj ?_)
  rw [blockOps_append, hops, blockOps_releaseEvents, List.append_assoc, ← List.map_append]
  simp only [singlePages, List.map_append]

/-- When all pages are allocated, the lines of the two loops are all that is said of buddies. -/
theorem tellsTruth_fragmentLog_iff :
    TellsTruth others (fragmentLog pfn n) ↔
      (∀ i < n, i % 2 = 1 → BuddyAllocated others pfn n (fun j => ¬(j % 2 = 1 ∧ j < i)) i
        (.stillAllocated i (pfn i))) ∧
      ∀ i < n, i % 2 = 0 → ¬ BuddyAllocated others pfn n (fun j => j % 2 = 0 ∧ i ≤ j) i
        (.alreadyFree i (pfn i)) := by
  have halloc : ∀ pre, Each (fun before => TrueLine others (pre ++ before))
      ((List.range n).flatMap (allocEvents .page pfn)) := fun pre =>
    Trace.each_of_forall fun ev hev before => by
      simp only [allocEvents, List.mem_flatMap, List.mem_cons, List.not_mem_nil, or_false] at hev
      obtain ⟨i, -, rfl | rfl⟩ := hev <;> trivial
  unfold TellsTruth fragmentLog
  simp only [Trace.each_append, halloc]
  rw [each_stillAllocated_iff hinj (by simp), each_alreadyFree_iff hinj (by simp)]
  simp [Trace.each_cons, TrueLine]

/-- A buddy that is a page of the array. -/
theorem buddyAllocated_iff_held {i j : ℕ} (hj : j < n) (hbuddy : pfn j = pfn i ^^^ 1)
    (held : ℕ → Prop) (line : FragmentLine) :
    BuddyAllocated others pfn n held i line ↔ held j := by
  unfold BuddyAllocated
  constructor
  · rintro (⟨j', hj', hbuddy', hheld⟩ | ⟨hno, -⟩)
    · obtain rfl := hinj j' hj' j hj (hbuddy'.trans hbuddy.symm)
      exact hheld
    · exact absurd hbuddy (hno j hj)
  · exact fun hheld => .inl ⟨j, hj, hbuddy, hheld⟩

/-- When all lines are true, no page has its buddy at an index of its own parity. -/
theorem parity_ne_of_tellsTruth (h : TellsTruth others (fragmentLog pfn n)) {i j : ℕ} (hi : i < n)
    (hj : j < n) (hbuddy : pfn j = pfn i ^^^ 1) : j % 2 ≠ i % 2 := by
  obtain ⟨hodd, heven⟩ := (tellsTruth_fragmentLog_iff hinj).mp h
  have hback : pfn i = pfn j ^^^ 1 := by rw [hbuddy, xor_one_xor_one]
  have hne : j ≠ i := by
    rintro rfl
    exact xor_one_ne _ hbuddy.symm
  intro hsame
  rcases Nat.mod_two_eq_zero_or_one i with hpar | hpar
  · -- of two even-indexed buddies, the line of the first is false
    have hline := heven i hi hpar
    have hline' := heven j hj (hsame.trans hpar)
    rw [buddyAllocated_iff_held hinj hj hbuddy] at hline
    rw [buddyAllocated_iff_held hinj hi hback] at hline'
    omega
  · -- of two odd-indexed buddies, the line of the second is false
    have hline := hodd i hi hpar
    have hline' := hodd j hj (hsame.trans hpar)
    rw [buddyAllocated_iff_held hinj hj hbuddy] at hline
    rw [buddyAllocated_iff_held hinj hi hback] at hline'
    omega

/-- The two loops together: the lines are true when the buddies are paired. -/
theorem tellsTruth_fragmentLog_iff_paired {alloc : ℕ → Option U64}
    (hall : ∀ j < n, alloc j = some (pfn j)) :
    TellsTruth others (fragmentLog pfn n) ↔ BuddiesPaired others alloc n := by
  rw [buddiesPaired_iff hall]
  constructor
  · intro h i hi
    by_cases hex : ∃ j < n, pfn j = pfn i ^^^ 1
    · obtain ⟨j, hj, hbuddy⟩ := hex
      exact .inl ⟨j, hj, hbuddy, parity_ne_of_tellsTruth hinj h hi hj hbuddy⟩
    · simp only [not_exists, not_and] at hex
      refine .inr ⟨hex, ?_⟩
      obtain ⟨hodd, heven⟩ := (tellsTruth_fragmentLog_iff hinj).mp h
      unfold buddyLine
      split_ifs with hpar
      · have hheld := (buddyAllocated_iff_others hex _ _).mp (hodd i hi hpar)
        rw [hheld, decide_eq_true hpar]
      · have hfree := mt (buddyAllocated_iff_others hex _ _).mpr (heven i hi (by omega))
        rw [Bool.eq_false_iff.mpr hfree, decide_eq_false hpar]
  · intro h
    rw [tellsTruth_fragmentLog_iff hinj]
    constructor
    · intro i hi hpar
      rcases h i hi with ⟨j, hj, hbuddy, hne⟩ | ⟨hno, hstate⟩
      · rw [buddyAllocated_iff_held hinj hj hbuddy]
        omega
      · rw [buddyLine, if_pos hpar, decide_eq_true hpar] at hstate
        exact (buddyAllocated_iff_others hno _ _).mpr hstate
    · intro i hi hpar
      rcases h i hi with ⟨j, hj, hbuddy, hne⟩ | ⟨hno, hstate⟩
      · rw [buddyAllocated_iff_held hinj hj hbuddy]
        omega
      · rw [buddyLine, if_neg (by omega), decide_eq_false (by omega)] at hstate
        rw [buddyAllocated_iff_others hno, hstate]
        exact Bool.false_ne_true

end Frames

/-- With distinct frames for the pages, every line about a buddy is true exactly when an allocation
fails, and there is none, or the buddies are paired as the indices suggest. -/
theorem buddyFragmentInit_tellsTruth_iff (alloc : ℕ → Option U64) (n : ℕ)
    (others : FragmentLine → U64 → Bool)
    (hdistinct : ∀ i < n, ∀ j < n, ∀ pfn ∈ alloc i, pfn ∈ alloc j → i = j) :
    TellsTruth others (buddyFragmentInit alloc n staticPages).2.log ↔
      (∃ i < n, alloc i = none) ∨ BuddiesPaired others alloc n := by
  obtain ⟨pfn, hall | ⟨k, hk, hfirst, hfail⟩⟩ := PageArray.exists_first_fail alloc n
  · have hinj : ∀ i < n, ∀ j < n, pfn i = pfn j → i = j := fun i hi j hj heq =>
      hdistinct i hi j hj (pfn i) (hall i hi) (heq ▸ hall j hj)
    have hsome : ¬∃ i < n, alloc i = none := by
      rintro ⟨i, hi, hnone⟩
      exact absurd ((hall i hi).symm.trans hnone) (Option.some_ne_none _)
    rw [buddyFragmentInit_of_all hall, or_iff_right hsome]
    exact tellsTruth_fragmentLog_iff_paired hinj hall
  · rw [buddyFragmentInit_of_fail hk hfirst hfail]
    refine iff_of_true (Trace.each_of_forall fun ev hev pre => ?_) (.inl ⟨k, hk, hfail⟩)
    -- no event of this log is a line about a buddy
    simp only [fragmentFailLog, allocEvents, releaseEvents, noLines, List.map_nil, List.nil_append,
      List.mem_append, List.mem_flatMap, List.mem_cons, List.not_mem_nil, or_false] at hev
    rcases hev with ((((rfl | rfl) | ⟨i, -, rfl | rfl⟩) | rfl | rfl) | ⟨i, -, rfl⟩) <;> trivial

/-- The theorem at two pages that are buddies. -/
theorem buddyFragmentInit_tellsTruth_pair :
    TellsTruth (fun _ _ => false)
      (buddyFragmentInit (fun i => some (BitVec.ofNat 64 (0x1000 + i))) 2 staticPages).2.log := by
  refine (buddyFragmentInit_tellsTruth_iff _ 2 _ ?_).mpr (.inr ?_)
  · intro i hi j hj pfn hpi hpj
    have heq := congrArg BitVec.toNat (Option.some.inj (hpi.trans hpj.symm))
    simp only [BitVec.toNat_ofNat] at heq
    omega
  · intro i hi pfn hpfn
    cases hpfn
    obtain rfl | rfl : i = 0 ∨ i = 1 := by omega
    · exact .inl ⟨1, by decide, by decide, by decide⟩
    · exact .inl ⟨0, by decide, by decide, by decide⟩

/-- With frames 0x1000 and 0x1002, and a free frame 0x1003, the line of the second page is false. -/
theorem buddyFragmentInit_not_tellsTruth :
    ¬ TellsTruth (fun _ _ => false) (buddyFragmentInit
      (fun i => some (BitVec.ofNat 64 (0x1000 + 2 * i))) 2 staticPages).2.log := by
  intro h
  have hline := h [.say .start, .say .step1, .alloc 0 (some 0x1000), .say (.page 0 0x1000),
    .alloc 0 (some 0x1002), .say (.page 1 0x1002), .say .step2] (.say (.stillAllocated 1 0x1002))
    [.free ⟨0x1002, 0⟩, .say .step3, .say (.alreadyFree 0 0x1000), .free ⟨0x1000, 0⟩, .say .step4,
      .say .finish] (by decide)
  simp only [TrueLine, Allocated] at hline
  rw [if_neg (by decide)] at hline
  exact absurd hline (by decide)

end KernelPortfolio
