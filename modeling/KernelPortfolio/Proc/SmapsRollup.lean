import KernelPortfolio.Proc.SmapsStats

/-!
# How `/proc/PID/smaps_rollup` goes through the VMAs

`show_smaps_rollup` adds up what all VMAs map. It holds the mmap lock, but lets go of it when
somebody waits for it, and then the VMAs may change: it goes on behind the last VMA that it came to,
in the middle of one if need be.

No address is counted twice, and one that is always mapped is counted, whatever happens to the VMAs
(`existsUnique_gathered`). With VMAs that do not change, the sum is that of the blocks of
`/proc/PID/smaps`, however often the lock is given away (`rollup_eq_sum`). The loop always comes to
an end (`showSmapsRollup_ne_running`).
-/

namespace KernelPortfolio.Smaps

open Cursor (Sweep Sweeps)
open PagemapRead (Call)

/-- What the mmap lock protects: the VMAs, and what a walk over a VMA from a start meets. -/
structure View where
  mm : MmStruct
  walk : (vma : MapsVma) → (start : ℕ) → List Call

/-- Whether `mmap_lock_is_contended`, and if so, what is there when the lock is taken again. -/
inductive Contention where
  | no
  | yes (view : View)
  /-- `mmap_read_lock_killable` is interrupted. -/
  | killed

/-- A call of `smap_gather_stats`. -/
abbrev Gather : Type := MapsVma × ℕ × List Call

/-- The addresses that the walk of a call goes over. -/
def Gather.Walks (g : Gather) (addr : ℕ) : Prop :=
  (if g.2.1 = 0 then g.1.lo else g.2.1) ≤ addr ∧ addr < g.1.hi

/-- `mss` and `last_vma_end`, and the calls of `smap_gather_stats` so far. -/
structure Rollup where
  mss : Stats
  lastVmaEnd : U64
  gathers : List Gather

/-- What becomes of the loop. -/
inductive Outcome where
  | shown (r : Rollup)
  | killed
  | running

variable (k : SmapsFacts)

/-- `smap_gather_stats`, and `last_vma_end` behind it. -/
def gather (view : View) (vma : MapsVma) (start : ℕ) (r : Rollup) : Rollup where
  mss := gatherStats k vma start (view.walk vma start) r.mss
  lastVmaEnd := vma.vmEnd
  gathers := r.gathers ++ [(vma, start, view.walk vma start)]

/-- `vma_next`: the iterator stands behind the last VMA. -/
def vmaNext (view : View) (r : Rollup) : Option MapsVma := view.mm.findVma r.lastVmaEnd

/-- The VMA behind the place where the lock was given away. -/
def gatherNext (view : View) (vma : MapsVma) (r : Rollup) : Rollup :=
  if r.lastVmaEnd ≤ vma.vmStart then gather k view vma 0 r
  else if r.lastVmaEnd < vma.vmEnd then gather k view vma r.lastVmaEnd.toNat r
  else r

/-- The loop of `show_smaps_rollup`, which asks once in each round whether the lock is contended. -/
def rollupLoop : List Contention → View → MapsVma → Rollup → Outcome
  | [], _, _, _ => .running
  | contention :: rest, view, vma, r =>
    let r := gather k view vma 0 r
    match contention with
    | .no =>
      match vmaNext view r with
      | none => .shown r
      | some vma => rollupLoop rest view vma r
    | .killed => .killed
    | .yes view =>
      match vmaNext view r with
      | none => .shown r
      | some vma =>
        let r := gatherNext k view vma r
        match vmaNext view r with
        | none => .shown r
        | some vma => rollupLoop rest view vma r

/-- The rollup before the first VMA. -/
def Rollup.empty : Rollup := ⟨0, 0, []⟩

/-- `show_smaps_rollup`, from the first `vma_next` on. -/
def showSmapsRollup (contentions : List Contention) (view : View) : Outcome :=
  match vmaNext view .empty with
  | none => .shown .empty
  | some vma => rollupLoop k contentions view vma .empty

/-! ## The rounds -/

/-- What is there after the lock was given away. -/
def Contention.view? : Contention → Option View
  | yes view => some view
  | _ => none

/-- The views that a run may have. -/
def views (contentions : List Contention) (view : View) : List View :=
  view :: contentions.filterMap Contention.view?

/-- What is swept, as `smap_gather_stats` is called for it. -/
def startOf (p : MapsVma × ℕ) : ℕ := if p.2 ≤ p.1.lo then 0 else p.2

/-- What holds in each round of what has been gathered: it is a sweep over VMAs of the views. -/
structure Swept (vs : List View) (r : Rollup) : Prop where
  sweep : ∃ swept,
    Sweep MapsVma.hi (fun xs => ∃ v ∈ vs, v.mm.vmas = xs) 0 r.lastVmaEnd.toNat swept ∧
      r.gathers.map (fun g => (g.1, g.2.1)) = swept.map fun p => (p.1, startOf p)
  mss : r.mss = gatherAll k r.gathers 0
  walk : ∀ g ∈ r.gathers, ∃ v ∈ vs, g.2.2 = v.walk g.1 g.2.1

/-- The iterator stands at the end of a VMA that is there, or at the beginning. -/
def Here (view : View) (r : Rollup) : Prop :=
  r.lastVmaEnd = 0 ∨ ∃ v ∈ view.mm.vmas, v.vmEnd = r.lastVmaEnd

variable {k} {vs : List View} {view : View} {r : Rollup} {vma : MapsVma}

/-- The start of the walk over a VMA that begins behind the cursor. -/
theorem startOf_of_le {c : ℕ} (h : c ≤ vma.lo) : startOf (vma, c) = 0 := if_pos h

/-- The iterator stands at the end of what was gathered. -/
theorem here_gather {start : ℕ} (hnext : vmaNext view r = some vma) :
    Here view (gather k view vma start r) :=
  .inr ⟨vma, (Cursor.mem_and_lt_of_above hnext).1, rfl⟩

/-- The next VMA begins behind the iterator. -/
theorem Here.le_lo (h : Here view r) (hnext : vmaNext view r = some vma) :
    r.lastVmaEnd.toNat ≤ vma.lo := by
  obtain ⟨hmem, hlt⟩ := Cursor.mem_and_lt_of_above hnext
  rcases h with hzero | ⟨v, hv, hend⟩
  · rw [hzero]
    exact Nat.zero_le _
  · rw [← hend] at hlt ⊢
    exact view.mm.ordered.le_lo hv hmem hlt

/-- What is gathered next is swept. -/
theorem Swept.gather (h : Swept k vs r) (hview : view ∈ vs) (hnext : vmaNext view r = some vma)
    {start : ℕ} (hstart : start = startOf (vma, r.lastVmaEnd.toNat)) :
    Swept k vs (gather k view vma start r) := by
  obtain ⟨swept, hsweep, hgathers⟩ := h.sweep
  refine ⟨⟨swept ++ [(vma, r.lastVmaEnd.toNat)], hsweep.visit ⟨view, hview, rfl⟩ hnext, ?_⟩, ?_, ?_⟩
  · rw [Smaps.gather, List.map_append, List.map_append, hgathers, hstart]
    rfl
  · have happend : gatherAll k (r.gathers ++ [(vma, start, view.walk vma start)]) 0 =
        gatherStats k vma start (view.walk vma start) (gatherAll k r.gathers 0) := by
      rw [gatherAll, List.foldl_append]
      rfl
    rw [Smaps.gather, happend, ← h.mss]
  · intro g hg
    rcases List.mem_append.mp hg with hold | hnew
    · exact h.walk g hold
    · rw [List.mem_singleton.mp hnew]
      exact ⟨view, hview, rfl⟩

/-- What is gathered behind the place where the lock was given away. -/
theorem Swept.gatherNext (h : Swept k vs r) (hview : view ∈ vs)
    (hnext : vmaNext view r = some vma) :
    Swept k vs (gatherNext k view vma r) ∧ Here view (gatherNext k view vma r) := by
  have hlt : r.lastVmaEnd < vma.vmEnd := (Cursor.mem_and_lt_of_above hnext).2
  unfold Smaps.gatherNext
  by_cases hle : r.lastVmaEnd ≤ vma.vmStart
  · rw [if_pos hle]
    exact ⟨h.gather hview hnext (startOf_of_le hle).symm, here_gather hnext⟩
  · rw [if_neg hle, if_pos hlt]
    exact ⟨h.gather hview hnext (if_neg hle).symm, here_gather hnext⟩

/-- Before the first VMA. -/
theorem swept_empty : Swept k vs .empty where
  sweep := ⟨[], .start, rfl⟩
  mss := rfl
  walk := by simp [Rollup.empty]

/-- The loop sweeps until there is no next VMA, in the views that it has. -/
theorem swept_rollupLoop {contentions : List Contention} (h : Swept k vs r) (hhere : Here view r)
    (hview : view ∈ vs) (hviews : ∀ v ∈ contentions.filterMap Contention.view?, v ∈ vs)
    (hnext : vmaNext view r = some vma) {r' : Rollup}
    (hshown : rollupLoop k contentions view vma r = .shown r') :
    Swept k vs r' ∧ ∃ view' ∈ vs, vmaNext view' r' = none := by
  -- on the rounds, each with another view where the lock was given away
  induction contentions generalizing view vma r with
  | nil => exact absurd hshown (by simp [rollupLoop])
  | cons contention rest ih =>
    have hgather := h.gather hview hnext (startOf_of_le (hhere.le_lo hnext)).symm
    have hrest : ∀ v ∈ rest.filterMap Contention.view?, v ∈ vs := by
      intro v hv
      obtain ⟨c, hc, hcv⟩ := List.mem_filterMap.mp hv
      exact hviews v (List.mem_filterMap.mpr ⟨c, List.mem_cons_of_mem _ hc, hcv⟩)
    -- a round ends with `vma_next`
    have hround {view : View} {r : Rollup} (h : Swept k vs r) (hhere : Here view r)
        (hview : view ∈ vs)
        (hshown : (match vmaNext view r with
          | none => .shown r
          | some vma => rollupLoop k rest view vma r) = Outcome.shown r') :
        Swept k vs r' ∧ ∃ view' ∈ vs, vmaNext view' r' = none := by
      cases hnext : vmaNext view r with
      | none =>
        rw [hnext] at hshown
        rw [← Outcome.shown.inj hshown]
        exact ⟨h, view, hview, hnext⟩
      | some vma =>
        rw [hnext] at hshown
        exact ih h hhere hview hrest hnext hshown
    unfold rollupLoop at hshown
    cases contention with
    | no => exact hround hgather (here_gather hnext) hview hshown
    | killed => exact absurd hshown (by simp)
    | yes view' =>
      -- the lock was given away: the VMA that is found now may have begun before
      have hview' : view' ∈ vs := hviews view' (List.mem_filterMap.mpr
        ⟨.yes view', List.mem_cons_self .., rfl⟩)
      dsimp only at hshown
      cases hnext' : vmaNext view' (gather k view vma 0 r) with
      | none =>
        rw [hnext'] at hshown
        rw [← Outcome.shown.inj hshown]
        exact ⟨hgather, view', hview', hnext'⟩
      | some vma' =>
        rw [hnext'] at hshown
        obtain ⟨hgather', hhere'⟩ := hgather.gatherNext hview' hnext'
        exact hround hgather' hhere' hview' hshown

/-- What is shown is a sweep until there is no next VMA. -/
theorem swept_showSmapsRollup {contentions : List Contention} {view : View}
    (hshown : showSmapsRollup k contentions view = .shown r) :
    Swept k (views contentions view) r ∧
      ∃ view' ∈ views contentions view, vmaNext view' r = none := by
  have hview : view ∈ views contentions view := List.mem_cons_self ..
  unfold showSmapsRollup at hshown
  cases hnext : vmaNext view .empty with
  | none =>
    rw [hnext] at hshown
    rw [← Outcome.shown.inj hshown]
    exact ⟨swept_empty, view, hview, hnext⟩
  | some vma =>
    rw [hnext] at hshown
    exact swept_rollupLoop swept_empty (.inl rfl) hview
      (fun v hv => List.mem_cons_of_mem _ hv) hnext hshown

/-! ## What is gathered -/

/-- Some VMA has the address. -/
def View.Mapped (view : View) (addr : ℕ) : Prop :=
  ∃ v ∈ view.mm.vmas, v.lo ≤ addr ∧ addr < v.hi

/-- The walk over what is swept goes over the addresses that are swept. -/
theorem walks_iff {g : Gather} {p : MapsVma × ℕ} (h : (g.1, g.2.1) = (p.1, startOf p)) (addr : ℕ) :
    g.Walks addr ↔ Sweeps MapsVma.lo MapsVma.hi p addr := by
  obtain ⟨hvma, hstart⟩ := Prod.mk.inj h
  unfold Gather.Walks Sweeps
  rw [hvma, hstart, startOf]
  by_cases hle : p.2 ≤ p.1.lo
  · rw [if_pos hle, if_pos rfl, max_eq_left hle]
  · have hne : p.2 ≠ 0 := by omega
    rw [if_neg hle, if_neg hne, max_eq_right (by omega)]

/-- The calls are for what is swept, one for one. -/
theorem getElem?_gathers {swept : List (MapsVma × ℕ)} {gs : List Gather}
    (h : gs.map (fun g => (g.1, g.2.1)) = swept.map fun p => (p.1, startOf p)) (i : ℕ) (addr : ℕ) :
    (∃ g, gs[i]? = some g ∧ g.Walks addr) ↔
      ∃ p, swept[i]? = some p ∧ Sweeps MapsVma.lo MapsVma.hi p addr := by
  have hat : (gs[i]?).map (fun g => (g.1, g.2.1)) = (swept[i]?).map fun p => (p.1, startOf p) := by
    rw [← List.getElem?_map, ← List.getElem?_map, h]
  cases hg : gs[i]? with
  | none =>
    rw [hg] at hat
    have hp : swept[i]? = none := by simpa using hat.symm
    simp [hp]
  | some g =>
    rw [hg] at hat
    obtain ⟨p, hp, heq⟩ := Option.map_eq_some_iff.mp hat.symm
    rw [hp]
    simp [walks_iff heq.symm addr]

/-- No address is counted twice, whatever happens to the VMAs while the lock is given away, and one
that is mapped whenever the lock is held is counted. -/
theorem existsUnique_gathered {contentions : List Contention}
    (hshown : showSmapsRollup k contentions view = .shown r) (addr : ℕ) :
    ((∃ i : ℕ, ∃ g, r.gathers[i]? = some g ∧ g.Walks addr) →
      ∃! i : ℕ, ∃ g, r.gathers[i]? = some g ∧ g.Walks addr) ∧
    ((∀ v ∈ views contentions view, v.Mapped addr) →
      ∃ i : ℕ, ∃ g, r.gathers[i]? = some g ∧ g.Walks addr) := by
  obtain ⟨hswept, view', hview', hend⟩ := swept_showSmapsRollup hshown
  obtain ⟨swept, hsweep, hgathers⟩ := hswept.sweep
  have hmem : (∃ i : ℕ, ∃ p, swept[i]? = some p ∧ Sweeps MapsVma.lo MapsVma.hi p addr) ↔
      ∃ p ∈ swept, Sweeps MapsVma.lo MapsVma.hi p addr := by
    constructor
    · rintro ⟨i, p, hp, hsweeps⟩
      exact ⟨p, List.mem_of_getElem? hp, hsweeps⟩
    · rintro ⟨p, hp, hsweeps⟩
      obtain ⟨i, hi⟩ := List.mem_iff_getElem?.mp hp
      exact ⟨i, p, hi, hsweeps⟩
  simp only [getElem?_gathers hgathers]
  rw [hmem]
  refine ⟨hsweep.existsUnique, ?_⟩
  intro hmapped
  refine (hsweep.mem_iff (Nat.zero_le _) ?_).mpr ?_
  · rintro xs ⟨v, hv, rfl⟩
    exact ⟨v.mm.ordered, hmapped v hv⟩
  · -- no VMA of the last view ends above the iterator
    obtain ⟨v, hv, -, hlt⟩ := hmapped view' hview'
    exact hlt.trans_le (Cursor.above_eq_none.mp hend v hv)

/-- The VMAs of an address space of two pages, or what is left of it. -/
def demoView (mm : MmStruct) : View := ⟨mm, fun vma _ => demoCalls (vma.lo / 4096)⟩

/-- A rollup that finds VMAs `mm` after the first page. -/
def demoRollup (mm : MmStruct) : Rollup :=
  gather demoFacts (demoView mm) (MapsSeq.demoVma 0x3000) 0
    (gather demoFacts (demoView MapsSeq.demoMm) (MapsSeq.demoVma 0x1000) 0 .empty)

/-- It is shown, if the second page is the next one and the last one. -/
theorem shown_demoRollup {mm : MmStruct} (hnext : mm.findVma 0x2000 = some (MapsSeq.demoVma 0x3000))
    (hend : mm.findVma 0x4000 = none) :
    showSmapsRollup demoFacts [.yes (demoView mm)] (demoView MapsSeq.demoMm) =
      .shown (demoRollup mm) := by
  have hfirst : vmaNext (demoView MapsSeq.demoMm) .empty = some (MapsSeq.demoVma 0x1000) := by
    decide
  have hgather : gatherNext demoFacts (demoView mm) (MapsSeq.demoVma 0x3000)
      (gather demoFacts (demoView MapsSeq.demoMm) (MapsSeq.demoVma 0x1000) 0 .empty) =
        demoRollup mm := if_pos (by decide)
  have hsecond : vmaNext (demoView mm)
      (gather demoFacts (demoView MapsSeq.demoMm) (MapsSeq.demoVma 0x1000) 0 .empty) =
        some (MapsSeq.demoVma 0x3000) := hnext
  have hthird : vmaNext (demoView mm) (demoRollup mm) = none := hend
  unfold showSmapsRollup
  rw [hfirst]
  dsimp only
  unfold rollupLoop
  dsimp only
  rw [hsecond]
  dsimp only
  rw [hgather, hthird]

/-- `existsUnique_gathered`, where the first page is unmapped while the lock is given away. -/
theorem existsUnique_gathered_demo :
    let r := demoRollup MapsSeq.demoUnmapped
    ((∃ i : ℕ, ∃ g, r.gathers[i]? = some g ∧ g.Walks 0x3000) →
      ∃! i : ℕ, ∃ g, r.gathers[i]? = some g ∧ g.Walks 0x3000) ∧
    ((∀ v ∈ views [.yes (demoView MapsSeq.demoUnmapped)] (demoView MapsSeq.demoMm),
        v.Mapped 0x3000) →
      ∃ i : ℕ, ∃ g, r.gathers[i]? = some g ∧ g.Walks 0x3000) :=
  existsUnique_gathered (shown_demoRollup (by decide) (by decide)) 0x3000

/-- With VMAs and pages that do not change, the rollup is the sum of the blocks of
`/proc/PID/smaps`, however often the lock is given away. -/
theorem rollup_eq_sum {contentions : List Contention}
    (hsame : ∀ v ∈ views contentions view, v = view)
    (hshown : showSmapsRollup k contentions view = .shown r) :
    r.mss = (view.mm.vmas.map fun v => gatherStats k v 0 (view.walk v 0) 0).sum := by
  obtain ⟨hswept, view', hview', hend⟩ := swept_showSmapsRollup hshown
  obtain ⟨swept, hsweep, hgathers⟩ := hswept.sweep
  rw [hsame view' hview'] at hend
  have hordered := view.mm.ordered
  have hsweep : Sweep MapsVma.hi (· = view.mm.vmas) 0 r.lastVmaEnd.toNat swept := by
    apply hsweep.mono
    rintro xs ⟨v, hv, rfl⟩
    rw [hsame v hv]
  have hvmas : swept.map Prod.fst = view.mm.vmas :=
    hsweep.walk.eq_of_above_eq_none hordered
      (fun x hx => (Nat.zero_le _).trans_lt (hordered.nonempty x hx)) hend
  have hstart : ∀ p ∈ swept, startOf p = 0 := fun p hp =>
    startOf_of_le ((hsweep.le_lo hordered fun _ _ => Nat.zero_le _).2 p hp)
  have hcalls : r.gathers = view.mm.vmas.map fun v => (v, 0, view.walk v 0) := by
    have hwalk : ∀ g ∈ r.gathers, g = (g.1, g.2.1, view.walk g.1 g.2.1) := by
      intro g hg
      obtain ⟨v, hv, heq⟩ := hswept.walk g hg
      rw [← hsame v hv, ← heq]
    have hid : (r.gathers.map fun g => (g.1, g.2.1, view.walk g.1 g.2.1)) = r.gathers :=
      (List.map_congr_left fun g hg => (hwalk g hg).symm).trans (List.map_id _)
    calc r.gathers
        = r.gathers.map fun g => (g.1, g.2.1, view.walk g.1 g.2.1) := hid.symm
      _ = (r.gathers.map fun g => (g.1, g.2.1)).map fun q => (q.1, q.2, view.walk q.1 q.2) := by
          rw [List.map_map]
          rfl
      _ = swept.map fun p => (p.1, 0, view.walk p.1 0) := by
          rw [hgathers, List.map_map]
          apply List.map_congr_left
          intro p hp
          simp only [Function.comp, hstart p hp]
      _ = (swept.map Prod.fst).map fun v => (v, 0, view.walk v 0) := by
          rw [List.map_map]
          rfl
      _ = view.mm.vmas.map fun v => (v, 0, view.walk v 0) := by rw [hvmas]
  rw [hswept.mss, hcalls, gatherAll,
    Tally.foldl_eq_sum fun g _ => adds_gatherStats g.1 g.2.1 g.2.2, zero_add, List.map_map]
  rfl

/-- `rollup_eq_sum`, where the lock is given away after the first page. -/
theorem rollup_eq_sum_demo :
    (demoRollup MapsSeq.demoMm).mss = ((demoView MapsSeq.demoMm).mm.vmas.map fun v =>
      gatherStats demoFacts v 0 ((demoView MapsSeq.demoMm).walk v 0) 0).sum :=
  rollup_eq_sum (by simp [views, Contention.view?]) (shown_demoRollup (by decide) (by decide))

/-- The loop ends, since each round leaves a VMA behind. -/
theorem rollupLoop_ne_running {contentions : List Contention} (hnext : vmaNext view r = some vma)
    (hlen : 2^63 ≤ r.lastVmaEnd.toNat + contentions.length) :
    rollupLoop k contentions view vma r ≠ .running := by
  induction contentions generalizing view vma r with
  | nil =>
    -- no VMA ends above the half of the addresses that processes have
    obtain ⟨hmem, hlt⟩ := Cursor.mem_and_lt_of_above hnext
    have huser := view.mm.user vma hmem
    rw [List.length_nil] at hlen
    omega
  | cons contention rest ih =>
    rw [List.length_cons] at hlen
    have hlt := (Cursor.mem_and_lt_of_above hnext).2
    have hround {view : View} {r' : Rollup} (hle : vma.hi ≤ r'.lastVmaEnd.toNat) :
        (match vmaNext view r' with
          | none => .shown r'
          | some vma => rollupLoop k rest view vma r') ≠ Outcome.running := by
      cases hnext' : vmaNext view r' with
      | none => simp
      | some vma' => exact ih hnext' (by omega)
    unfold rollupLoop
    cases contention with
    | no => exact hround le_rfl
    | killed => simp
    | yes view' =>
      dsimp only
      cases hnext' : vmaNext view' (gather k view vma 0 r) with
      | none => simp
      | some vma' =>
        have hlt' : vma.hi < vma'.hi := (Cursor.mem_and_lt_of_above hnext').2
        apply hround
        unfold gatherNext
        split_ifs
        · exact hlt'.le
        · exact hlt'.le
        · exact le_rfl

/-- `show_smaps_rollup` ends, after fewer than 2^63 rounds. -/
theorem showSmapsRollup_ne_running {contentions : List Contention}
    (hlen : 2^63 ≤ contentions.length) : showSmapsRollup k contentions view ≠ .running := by
  unfold showSmapsRollup
  cases hnext : vmaNext view .empty with
  | none => simp
  | some vma => exact rollupLoop_ne_running hnext (hlen.trans (Nat.le_add_left _ _))

end KernelPortfolio.Smaps
