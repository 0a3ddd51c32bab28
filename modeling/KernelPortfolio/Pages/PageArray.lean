import KernelPortfolio.Lib.Ledger
import KernelPortfolio.Machine
import Mathlib.Data.List.Nodup

/-!
# Arrays of pages

The two exercises on the buddy allocator keep the pages that they allocate in an array of
`struct page *`, and release them in loops over its indices. `allocPages` and `releasePages` are
these loops, over the array and the log of what was done, and each has a lemma that says what it
leaves of both.
-/

namespace KernelPortfolio

/-- A block of `2^order` pages, by its first frame. -/
structure Block where
  pfn : U64
  order : ℕ
  deriving DecidableEq, Repr

/-- An element of an array of `struct page *`; a page is written as its frame number, which
`page_to_pfn` gives. -/
inductive Slot where
  | unassigned
  | null
  | page (pfn : U64)
  deriving DecidableEq, Repr

/-- What a driver does, with lines of the type `L`. -/
inductive PageEvent (L : Type) where
  /-- `alloc_pages`, and what it returns. -/
  | alloc (order : ℕ) (page : Option U64)
  /-- `__free_pages`; also `put_page`, on a page with one reference. -/
  | free (block : Block)
  /-- It uses a slot that holds no page as if it did. -/
  | wild
  | say (line : L)
  deriving DecidableEq, Repr

/-- The array, and the log of what was done. -/
structure PageArray (L : Type) where
  pages : ℕ → Slot
  log : List (PageEvent L)

variable {L : Type}

/-- The operation on a block that an event is. -/
def PageEvent.op? : PageEvent L → Option (Ledger.Op Block)
  | alloc order page => page.map fun pfn => .take ⟨pfn, order⟩
  | free block => some (.drop block)
  | _ => none

/-- The operations of a log on blocks. -/
def blockOps (log : List (PageEvent L)) : List (Ledger.Op Block) := log.filterMap PageEvent.op?

/-- The driver frees every block that it allocates once, with its order, and nothing else, and every
pointer that it passes to a free function, or to `page_to_pfn`, is a page. -/
structure FreesOnce (log : List (PageEvent L)) : Prop where
  balanced : Ledger.Balanced (blockOps log)
  pages : .wild ∉ log

namespace PageArray

/-- More events. -/
def emit (s : PageArray L) (evs : List (PageEvent L)) : PageArray L :=
  { s with log := s.log ++ evs }

/-- `pages[i] = slot`. -/
def set (s : PageArray L) (i : ℕ) (slot : Slot) : PageArray L :=
  { s with pages := Function.update s.pages i slot }

/-- The loop with `pages[i] = alloc_page(GFP_KERNEL)`, for `m` indices from `i` on, where `alloc i`
is what the allocator returns. A failure ends the loop, with its index. -/
def allocPages (failed : ℕ → L) (got : ℕ → U64 → L) (alloc : ℕ → Option U64) :
    ℕ → ℕ → PageArray L → Option ℕ × PageArray L
  | 0, _, s => (none, s)
  | m + 1, i, s =>
    match alloc i with
    | none => (some i, (s.set i .null).emit [.alloc 0 none, .say (failed i)])
    | some pfn =>
      allocPages failed got alloc m (i + 1)
        ((s.set i (.page pfn)).emit [.alloc 0 (some pfn), .say (got i pfn)])

/-- The release of `pages[i]`, after the lines about it. Where `checked`, only `if (pages[i])`, and
where `clear`, with `pages[i] = NULL` after it. -/
def releasePage (checked clear : Bool) (lines : ℕ → U64 → List L) (s : PageArray L) (i : ℕ) :
    PageArray L :=
  match s.pages i with
  | .page pfn =>
    let s := s.emit ((lines i pfn).map .say ++ [.free ⟨pfn, 0⟩])
    if clear then s.set i .null else s
  | .null => if checked then s else s.emit [.wild]
  | .unassigned => s.emit [.wild]

/-- The release of the pages with the indices `is`, one after another. -/
def releasePages (checked clear : Bool) (lines : ℕ → U64 → List L) (is : List ℕ)
    (s : PageArray L) : PageArray L :=
  is.foldl (releasePage checked clear lines) s

@[simp]
theorem emit_pages (s : PageArray L) (evs : List (PageEvent L)) : (s.emit evs).pages = s.pages :=
  rfl

@[simp]
theorem emit_log (s : PageArray L) (evs : List (PageEvent L)) :
    (s.emit evs).log = s.log ++ evs := rfl

@[simp]
theorem set_log (s : PageArray L) (i : ℕ) (slot : Slot) : (s.set i slot).log = s.log := rfl

@[simp]
theorem set_pages_self (s : PageArray L) (i : ℕ) (slot : Slot) : (s.set i slot).pages i = slot :=
  Function.update_self ..

/-- The other slots are kept. -/
theorem set_pages_of_ne (s : PageArray L) {i j : ℕ} (h : j ≠ i) (slot : Slot) :
    (s.set i slot).pages j = s.pages j :=
  Function.update_of_ne h ..

/-- The events of an allocation that succeeds. -/
def allocEvents (got : ℕ → U64 → L) (pfn : ℕ → U64) (i : ℕ) : List (PageEvent L) :=
  [.alloc 0 (some (pfn i)), .say (got i (pfn i))]

/-- The events of a release. -/
def releaseEvents (lines : ℕ → U64 → List L) (pfn : ℕ → U64) (i : ℕ) : List (PageEvent L) :=
  (lines i (pfn i)).map .say ++ [.free ⟨pfn i, 0⟩]

/-- As long as allocations succeed, they fill the array. -/
theorem allocPages_eq {failed : ℕ → L} {got : ℕ → U64 → L} {alloc : ℕ → Option U64}
    {pfn : ℕ → U64} {k : ℕ} (m i : ℕ) (s : PageArray L)
    (h : ∀ j, i ≤ j → j < i + k → alloc j = some (pfn j)) :
    allocPages failed got alloc (k + m) i s =
      allocPages failed got alloc m (i + k)
        ⟨fun j => if i ≤ j ∧ j < i + k then .page (pfn j) else s.pages j,
          s.log ++ (List.range' i k).flatMap (allocEvents got pfn)⟩ := by
  induction k generalizing i s with
  | zero =>
    have hpages : (fun j => if i ≤ j ∧ j < i + 0 then Slot.page (pfn j) else s.pages j) =
        s.pages := funext fun j => if_neg (by omega)
    rw [hpages, List.range'_zero, List.flatMap_nil, List.append_nil, Nat.zero_add, Nat.add_zero]
  | succ k ih =>
    have hhead := h i (Nat.le_refl i) (by omega)
    -- this turn fills slot `i`, the others the slots behind it
    have hpages : ∀ j, (if i + 1 ≤ j ∧ j < i + 1 + k then Slot.page (pfn j)
        else (s.set i (.page (pfn i))).pages j) =
          if i ≤ j ∧ j < i + (k + 1) then .page (pfn j) else s.pages j := by
      intro j
      rcases eq_or_ne j i with rfl | hne
      · rw [if_neg (by omega), if_pos (by omega), set_pages_self]
      · rw [set_pages_of_ne s hne]
        exact if_congr (by omega) rfl rfl
    rw [show k + 1 + m = k + m + 1 by omega, allocPages, hhead]
    simp only
    rw [ih (i + 1) _ fun j hj hlt => h j (by omega) (by omega)]
    simp only [emit_pages, emit_log, set_log, hpages, List.range'_succ, List.flatMap_cons,
      List.append_assoc, allocEvents]
    rw [show i + 1 + k = i + (k + 1) by omega]

/-- All allocations succeed. -/
theorem allocPages_of_all {failed : ℕ → L} {got : ℕ → U64 → L} {alloc : ℕ → Option U64}
    {pfn : ℕ → U64} {n : ℕ} (s : PageArray L) (h : ∀ j < n, alloc j = some (pfn j)) :
    allocPages failed got alloc n 0 s =
      (none, ⟨fun j => if j < n then .page (pfn j) else s.pages j,
        s.log ++ (List.range n).flatMap (allocEvents got pfn)⟩) := by
  rw [← Nat.add_zero n, allocPages_eq 0 0 s fun j _ hlt => h j (by omega), allocPages]
  simp only [Nat.zero_le, true_and, Nat.zero_add, Nat.add_zero, List.range_eq_range']

/-- The first allocation that fails is that of index `k`. -/
theorem allocPages_of_fail {failed : ℕ → L} {got : ℕ → U64 → L} {alloc : ℕ → Option U64}
    {pfn : ℕ → U64} {n k : ℕ} (s : PageArray L) (hk : k < n) (h : ∀ j < k, alloc j = some (pfn j))
    (hfail : alloc k = none) :
    allocPages failed got alloc n 0 s =
      (some k, ⟨fun j => if j < k then .page (pfn j) else if j = k then .null else s.pages j,
        s.log ++ (List.range k).flatMap (allocEvents got pfn) ++
          [.alloc 0 none, .say (failed k)]⟩) := by
  obtain ⟨m, rfl⟩ := Nat.exists_eq_add_of_lt hk
  have hpages : ∀ j, Function.update (fun j => if j < k then Slot.page (pfn j) else s.pages j) k
      .null j = if j < k then .page (pfn j) else if j = k then .null else s.pages j := by
    intro j
    rcases eq_or_ne j k with rfl | hne
    · rw [Function.update_self, if_neg (lt_irrefl j), if_pos rfl]
    · rw [Function.update_of_ne hne, if_neg hne]
  rw [Nat.add_assoc, allocPages_eq (m + 1) 0 s fun j _ hlt => h j (by omega), allocPages,
    Nat.zero_add, hfail]
  simp only [emit, set, Nat.zero_le, true_and, funext hpages, List.range_eq_range']

/-- Either all of `n` allocations succeed, or there is a first one that fails. -/
theorem exists_first_fail (alloc : ℕ → Option U64) (n : ℕ) :
    ∃ pfn : ℕ → U64, (∀ j < n, alloc j = some (pfn j)) ∨
      ∃ k < n, (∀ j < k, alloc j = some (pfn j)) ∧ alloc k = none := by
  refine ⟨fun j => (alloc j).getD 0, ?_⟩
  induction n with
  | zero => exact .inl fun j hj => absurd hj (Nat.not_lt_zero j)
  | succ n ih =>
    rcases ih with hall | ⟨k, hk, hfirst⟩
    · cases hn : alloc n with
      | none => exact .inr ⟨n, Nat.lt_succ_self n, hall, hn⟩
      | some p =>
        refine .inl fun j hj => ?_
        rcases Nat.lt_succ_iff_lt_or_eq.mp hj with hlt | rfl
        · exact hall j hlt
        · simp only [hn, Option.getD_some]
    · exact .inr ⟨k, Nat.lt_succ_of_lt hk, hfirst⟩

/-- The release of pages, each once. -/
theorem releasePages_eq {checked clear : Bool} {lines : ℕ → U64 → List L} (pfn : ℕ → U64)
    {is : List ℕ} (s : PageArray L) (hnodup : is.Nodup)
    (h : ∀ i ∈ is, s.pages i = .page (pfn i)) :
    releasePages checked clear lines is s =
      ⟨fun j => if clear = true ∧ j ∈ is then .null else s.pages j,
        s.log ++ is.flatMap (releaseEvents lines pfn)⟩ := by
  induction is generalizing s with
  | nil => simp [releasePages]
  | cons i is ih =>
    obtain ⟨hi, hnodup'⟩ := List.nodup_cons.mp hnodup
    have hpage := h i (List.mem_cons_self ..)
    have hstep : releasePage checked clear lines s i =
        ⟨fun j => if clear = true ∧ j = i then .null else s.pages j,
          s.log ++ releaseEvents lines pfn i⟩ := by
      unfold releasePage
      rw [hpage]
      cases clear with
      | false => simp [emit, releaseEvents]
      | true =>
        simp only [emit, set, if_true, true_and, releaseEvents]
        exact congrArg (PageArray.mk · _) (funext fun j => Function.update_apply ..)
    have hpages : ∀ j, (if clear = true ∧ j ∈ is then Slot.null
        else if clear = true ∧ j = i then .null else s.pages j) =
          if clear = true ∧ j ∈ i :: is then .null else s.pages j := by
      intro j
      simp only [List.mem_cons]
      split_ifs <;> tauto
    unfold releasePages at ih ⊢
    -- the index does not come again, so that the other pages are still there
    rw [List.foldl_cons, hstep, ih _ hnodup' fun j hj => ?_]
    · simp only [hpages, List.flatMap_cons, List.append_assoc]
    · have hne : ¬(clear = true ∧ j = i) := fun heq => hi (heq.2 ▸ hj)
      simp only [if_neg hne]
      exact h j (List.mem_cons_of_mem i hj)

/-- With the check, nothing is released where there is nothing. -/
theorem releasePages_null {clear : Bool} {lines : ℕ → U64 → List L} {is : List ℕ}
    {s : PageArray L} (h : ∀ i ∈ is, s.pages i = .null) :
    releasePages true clear lines is s = s := by
  induction is with
  | nil => rfl
  | cons i is ih =>
    have hstep : releasePage true clear lines s i = s := by
      unfold releasePage
      rw [h i (List.mem_cons_self ..)]
      rfl
    unfold releasePages at ih ⊢
    rw [List.foldl_cons, hstep]
    exact ih fun j hj => h j (List.mem_cons_of_mem i hj)

/-- One list of indices after another. -/
theorem releasePages_append (checked clear : Bool) (lines : ℕ → U64 → List L) (is js : List ℕ)
    (s : PageArray L) :
    releasePages checked clear lines (is ++ js) s =
      releasePages checked clear lines js (releasePages checked clear lines is s) :=
  List.foldl_append

end PageArray

/-! ## The operations of a log -/

/-- The operations of two logs. -/
@[simp]
theorem blockOps_append (log log' : List (PageEvent L)) :
    blockOps (log ++ log') = blockOps log ++ blockOps log' :=
  List.filterMap_append

@[simp]
theorem blockOps_nil : blockOps ([] : List (PageEvent L)) = [] := rfl

@[simp]
theorem blockOps_say (line : L) (log : List (PageEvent L)) :
    blockOps (.say line :: log) = blockOps log := rfl

@[simp]
theorem blockOps_alloc_none (order : ℕ) (log : List (PageEvent L)) :
    blockOps (.alloc order none :: log) = blockOps log := rfl

@[simp]
theorem blockOps_alloc_some (order : ℕ) (pfn : U64) (log : List (PageEvent L)) :
    blockOps (.alloc order (some pfn) :: log) = .take ⟨pfn, order⟩ :: blockOps log := rfl

@[simp]
theorem blockOps_free (b : Block) (log : List (PageEvent L)) :
    blockOps (.free b :: log) = .drop b :: blockOps log := rfl

/-- The single pages with the indices `is`. -/
def singlePages (pfn : ℕ → U64) (is : List ℕ) : List Block := is.map fun i => ⟨pfn i, 0⟩

/-- The allocations take their pages. -/
@[simp]
theorem blockOps_allocEvents (got : ℕ → U64 → L) (pfn : ℕ → U64) (is : List ℕ) :
    blockOps (is.flatMap (PageArray.allocEvents got pfn)) =
      (singlePages pfn is).map Ledger.Op.take := by
  induction is with
  | nil => rfl
  | cons i is ih =>
    rw [List.flatMap_cons, blockOps_append, ih]
    rfl

/-- Lines are no operations. -/
@[simp]
theorem blockOps_map_say (lines : List L) : blockOps (lines.map PageEvent.say) = [] := by
  induction lines with
  | nil => rfl
  | cons line lines ih => exact ih

/-- The releases drop their pages. -/
@[simp]
theorem blockOps_releaseEvents (lines : ℕ → U64 → List L) (pfn : ℕ → U64) (is : List ℕ) :
    blockOps (is.flatMap (PageArray.releaseEvents lines pfn)) =
      (singlePages pfn is).map Ledger.Op.drop := by
  induction is with
  | nil => rfl
  | cons i is ih =>
    rw [List.flatMap_cons, blockOps_append, ih, PageArray.releaseEvents, blockOps_append,
      blockOps_map_say]
    rfl

/-- An allocation uses no slot. -/
@[simp]
theorem wild_not_mem_allocEvents (got : ℕ → U64 → L) (pfn : ℕ → U64) (i : ℕ) :
    .wild ∉ PageArray.allocEvents got pfn i := by
  simp [PageArray.allocEvents]

/-- The release of a page uses a page. -/
@[simp]
theorem wild_not_mem_releaseEvents (lines : ℕ → U64 → List L) (pfn : ℕ → U64) (i : ℕ) :
    .wild ∉ PageArray.releaseEvents lines pfn i := by
  simp [PageArray.releaseEvents]

end KernelPortfolio
