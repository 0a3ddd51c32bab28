import KernelPortfolio.Inspect.MmAxiom

/-!
# What the walk of `mm_exercise_hw.c` follows and reports

The walk is meant to mimic the CPU. It does where its guards stop at what the CPU stops at:
`tracePageTableWalk_followsPresent_iff` says when it descends through present tables only, and
`tracePageTableWalk_reportsMapped_iff` when it reports, and reads, mapped pages only. On four
levels the guard of the first level never stops the walk, and the guard of the last level is
`pfn_valid` alone. The guards of the middle levels stop at large pages, before the tests for them
(`tracePageTableWalk_detectsLarge_iff`).
-/

namespace KernelPortfolio

/-! ## The entries that the walk reads -/

/-- The address space that the walk looks at, if it gets that far. -/
def Kernel.walkMm (k : Kernel) (pid : CInt) : Option Mm := (k.walkTask pid).bind Task.mm

/-- The entry of the last level, when the guards above let the walk reach it. -/
def Kernel.lastEntry (k : Kernel) (mm : Mm) (va : U64) : Option U64 :=
  if pgdNone k.cfg (k.pgdEntry mm va) || pgdBad k.cfg (k.pgdEntry mm va) then none else
  if pudNone (k.pudEntry mm va) || pudBad (k.pudEntry mm va) then none else
  if pudLeaf (k.pudEntry mm va) then none else
  if pmdNone (k.pmdEntry mm va) || pmdBad (k.pmdEntry mm va) then none else
  if pmdLeaf (k.pmdEntry mm va) then none else
  if k.ptePtr mm va = 0 then none else some (k.pteEntry mm va)

/-- The end of the walk reads no entry. -/
theorem reads_tracePte (k : Kernel) (va pteIdx pteVal : U64) :
    reads (tracePte k va pteIdx pteVal) = [] := by
  simp only [tracePte]
  split_ifs <;> rfl

/-- The entries that the walk reads under the lock. -/
theorem reads_traceLevels (k : Kernel) (mm : Mm) (va : U64) :
    reads (traceLevels k mm va) = (.pml4, k.pgdEntry mm va) ::
      if pgdNone k.cfg (k.pgdEntry mm va) || pgdBad k.cfg (k.pgdEntry mm va) then [] else
      (.pdpt, k.pudEntry mm va) ::
        if pudNone (k.pudEntry mm va) || pudBad (k.pudEntry mm va) then [] else
        if pudLeaf (k.pudEntry mm va) then [] else
        (.pd, k.pmdEntry mm va) :: (k.lastEntry mm va).toList.map (.pt, ·) := by
  simp only [traceLevels, reads_say, reads_read, Kernel.lastEntry]
  split_ifs <;> simp only [reads_say, reads_read, reads_nil, reads_tracePte, Option.toList,
    List.map]

/-- The entries that the walk reads. -/
theorem reads_tracePageTableWalk (k : Kernel) (pid : CInt) (va : U64) :
    reads (tracePageTableWalk k pid va) =
      match k.walkMm pid with
      | none => []
      | some mm => reads (traceLevels k mm va) := by
  unfold tracePageTableWalk Kernel.walkMm
  cases k.walkTask pid with
  | none => rfl
  | some task =>
    obtain ⟨addr, comm, tpid, mm⟩ := task
    cases mm with
    | none => rfl
    | some mm =>
      simp only [reads_ref, reads_say, reads_append, reads_nil, List.append_nil, Option.bind_some]

/-! ## The walk follows present entries -/

/-- The CPU descends through the entry: it is present and no leaf. -/
def Descends (p : PtLevel × U64) : Prop := p.2.getLsbD 0 = true ∧ p.1.isLeaf p.2 = false

/-- Every entry of a walk but the last is one that the CPU descends through. -/
def FollowsPresent (t : List (Event AxiomLine)) : Prop :=
  (reads t).IsChain fun p _ => Descends p

/-- For an empty entry of the top table, the walk stops with the message of the first level and
reads no table below. -/
def StopsAtEmpty (k : Kernel) (pid : CInt) (va : U64) : Prop :=
  ∀ mm ∈ k.walkMm pid, k.pgdEntry mm va = 0 →
    .say (.terminated .pml4) ∈ tracePageTableWalk k pid va ∧
      ∀ p ∈ reads (tracePageTableWalk k pid va), p.1 = .pml4

/-- The CPU descends through the PML4 entry, and the PUD entry is present unless a guard stops
there. -/
def UpperPresent (k : Kernel) (mm : Mm) (va : U64) : Prop :=
  (k.pgdEntry mm va).getLsbD 0 = true ∧
    (pudNone (k.pudEntry mm va) = true ∨ pudBad (k.pudEntry mm va) = true ∨
      (k.pudEntry mm va).getLsbD 0 = true)

/-- The entry above the last level was judged a table that is present. -/
theorem descends_of_mem_lastEntry {k : Kernel} {mm : Mm} {va e : U64}
    (h : e ∈ k.lastEntry mm va) : Descends (.pd, k.pmdEntry mm va) := by
  unfold Kernel.lastEntry at h
  split_ifs at h with _ _ _ h3 <;> simp only [Option.mem_def, reduceCtorEq] at h
  rw [Bool.not_eq_true, Bool.or_eq_false_iff] at h3
  exact table_of_pmdBad h3.2

/-- Under the lock, the walk follows present entries exactly when the upper entries are present. -/
theorem traceLevels_followsPresent_iff {k : Kernel} (hl5 : k.cfg.l5Enabled = false) (mm : Mm)
    (va : U64) : FollowsPresent (traceLevels k mm va) ↔ UpperPresent k mm va := by
  have hpml4 : Descends (.pml4, k.pgdEntry mm va) ↔ (k.pgdEntry mm va).getLsbD 0 = true :=
    and_iff_left rfl
  have hlast : ((PtLevel.pd, k.pmdEntry mm va) ::
      (k.lastEntry mm va).toList.map (PtLevel.pt, ·)).IsChain fun p _ => Descends p := by
    cases he : k.lastEntry mm va with
    | none => simp
    | some e => simpa using descends_of_mem_lastEntry he
  rw [FollowsPresent, reads_traceLevels, pgd_guard_eq_false hl5, if_neg Bool.false_ne_true,
    List.isChain_cons_cons, hpml4, UpperPresent]
  refine and_congr_right fun _ => ?_
  cases hnone : pudNone (k.pudEntry mm va) with
  | true => simp
  | false =>
    cases hbad : pudBad (k.pudEntry mm va) with
    | true => simp
    | false =>
      have hleaf := not_leaf_of_pudBad hbad
      rw [pudLeaf_eq, hleaf]
      simp only [Bool.or_self, Bool.false_eq_true, if_false, false_or, List.isChain_cons_cons]
      exact (and_iff_left hlast).trans (and_iff_left hleaf)

/-- On four levels, the walk descends through present tables only, and stops at an empty top entry,
exactly when the process has no address space to walk, or the CPU descends through its PML4 entry
and its PUD entry is present or stopped at. -/
theorem tracePageTableWalk_followsPresent_iff (k : Kernel) (pid : CInt) (va : U64)
    (hl5 : k.cfg.l5Enabled = false) :
    FollowsPresent (tracePageTableWalk k pid va) ∧ StopsAtEmpty k pid va ↔
      ∀ mm ∈ k.walkMm pid, UpperPresent k mm va := by
  unfold FollowsPresent StopsAtEmpty
  rw [reads_tracePageTableWalk]
  cases k.walkMm pid with
  | none => simp
  | some mm =>
    have hiff := traceLevels_followsPresent_iff hl5 mm va
    simp only [Option.mem_def, Option.some.injEq, forall_eq']
    constructor
    · exact fun h => hiff.mp h.1
    · intro h
      refine ⟨hiff.mpr h, fun hzero => ?_⟩
      -- an empty entry is not present
      unfold UpperPresent at h
      rw [hzero] at h
      exact absurd h.1 (by decide)

/-- The theorem at a process with a present path. -/
theorem tracePageTableWalk_followsPresent_path :
    FollowsPresent (tracePageTableWalk (.ofEntries pageEntries) 7 0x1234) ∧
      StopsAtEmpty (.ofEntries pageEntries) 7 0x1234 := by
  refine (tracePageTableWalk_followsPresent_iff _ 7 0x1234 rfl).mpr fun mm hmm => ?_
  cases hmm
  exact ⟨by decide, .inr (.inr (by decide))⟩

/-- With empty page tables, the walk reads a PUD entry through the empty PML4 entry. -/
theorem tracePageTableWalk_not_followsPresent :
    ¬ (FollowsPresent (tracePageTableWalk (.ofEntries []) 7 0x1000) ∧
      StopsAtEmpty (.ofEntries []) 7 0x1000) := by
  rintro ⟨h, -⟩
  have hreads : reads (tracePageTableWalk (.ofEntries []) 7 0x1000) = [(.pml4, 0), (.pdpt, 0)] := by
    decide
  unfold FollowsPresent at h
  rw [hreads, List.isChain_cons_cons] at h
  exact absurd h.1.1 (by decide)

/-! ## The walk reports mapped pages -/

/-- A line with a physical address, or a read of memory. -/
def Event.shows : Event AxiomLine → Bool
  | say (.phys _ _ _) => true
  | ram _ _ => true
  | _ => false

/-- What a walk shows of a page. -/
def shown (t : List (Event AxiomLine)) : List (Event AxiomLine) := t.filter Event.shows

/-- The walk reports mapped pages only. It prints a physical address, or reads memory, only for a
last-level entry that is present, and the address is the entry's frame with the low 12 bits of `va`.
For an empty entry, and for a swap entry, it does neither. -/
def ReportsMapped (t : List (Event AxiomLine)) (va : U64) : Prop :=
  (∀ ev ∈ shown t, ∃ e, (.pt, e) ∈ reads t ∧ ptePresent e = true ∧
    ∀ pfn offset phys, ev = .say (.phys pfn offset phys) →
      phys = mappedFrame e ||| (va &&& 0xFFF)) ∧
  ∀ e, (.pt, e) ∈ reads t → (e = 0 ∨ ∃ type offset, e = swpEntry type offset) → shown t = []

/-- The end of the walk shows something when the frame number of the entry is valid. -/
theorem shown_tracePte (k : Kernel) (va pteIdx pteVal : U64) :
    shown (tracePte k va pteIdx pteVal) =
      if k.pfnValid (ptePfn pteVal) = false then [] else
      let phys := (ptePfn pteVal <<< 12) ||| (va &&& ~~~pageMask)
      .say (.phys (ptePfn pteVal) (va &&& ~~~pageMask) phys) ::
        if k.virtAddrValid (k.machine.va phys) then
          [.ram (k.machine.va phys) ((List.range 16).map fun i =>
            k.machine.loadByte (k.machine.va phys + BitVec.ofNat 64 i))]
        else [] := by
  simp only [tracePte]
  cases k.pfnValid (ptePfn pteVal) with
  | false => rfl
  | true =>
    simp only [Bool.not_true, Bool.false_eq_true, Bool.true_eq_false, if_false]
    split_ifs <;> rfl

/-- Under the lock, the walk shows what its end shows of the last entry. -/
theorem shown_traceLevels (k : Kernel) (mm : Mm) (va : U64) :
    shown (traceLevels k mm va) =
      match k.lastEntry mm va with
      | none => []
      | some e => shown (tracePte k va ((va >>> 12) &&& (512 - 1)) e) := by
  simp only [traceLevels, Kernel.lastEntry]
  split_ifs <;> rfl

/-- The walk shows what it shows under the lock. -/
theorem shown_tracePageTableWalk (k : Kernel) (pid : CInt) (va : U64) :
    shown (tracePageTableWalk k pid va) =
      match k.walkMm pid with
      | none => []
      | some mm => shown (traceLevels k mm va) := by
  unfold tracePageTableWalk Kernel.walkMm
  cases k.walkTask pid with
  | none => rfl
  | some task =>
    obtain ⟨addr, comm, tpid, mm⟩ := task
    cases mm with
    | none => rfl
    | some mm => exact (List.filter_append _ _).trans (List.append_nil _)

/-- The last-level entry that the walk reads is the one that its guards let it reach. -/
theorem mem_reads_traceLevels {k : Kernel} {mm : Mm} {va e : U64} :
    (.pt, e) ∈ reads (traceLevels k mm va) ↔ k.lastEntry mm va = some e := by
  rw [reads_traceLevels]
  by_cases h1 : (pgdNone k.cfg (k.pgdEntry mm va) || pgdBad k.cfg (k.pgdEntry mm va)) = true
  · simp [Kernel.lastEntry, h1]
  by_cases h2 : (pudNone (k.pudEntry mm va) || pudBad (k.pudEntry mm va)) = true
  · simp [Kernel.lastEntry, h1, h2]
  by_cases h3 : pudLeaf (k.pudEntry mm va) = true
  · simp [Kernel.lastEntry, h1, h2, h3]
  rw [if_neg h1, if_neg h2, if_neg h3]
  cases k.lastEntry mm va with
  | none => simp
  | some e' => simp [eq_comm]

/-- The address that the walk computes from a present entry. -/
theorem phys_of_ptePresent {e : U64} (h : ptePresent e = true) (va : U64) :
    (ptePfn e <<< 12) ||| (va &&& ~~~pageMask) = mappedFrame e ||| (va &&& 0xFFF) := by
  have hmask : (~~~pageMask : U64) = 0xFFF := by decide
  have hne : e ≠ 0 := by
    rintro rfl
    exact absurd h (by decide)
  rw [hmask, ptePfn_shift, if_neg hne]

/-- What the end of the walk shows is right exactly when the entry is present, or its frame number
is not valid and nothing is shown. -/
theorem tracePte_reportsMapped_iff (k : Kernel) (va pteIdx e : U64) :
    ((∀ ev ∈ shown (tracePte k va pteIdx e), ptePresent e = true ∧
        ∀ pfn offset phys, ev = .say (.phys pfn offset phys) →
          phys = mappedFrame e ||| (va &&& 0xFFF)) ∧
      ((e = 0 ∨ ∃ type offset, e = swpEntry type offset) →
        shown (tracePte k va pteIdx e) = [])) ↔
      ptePresent e = true ∨ k.pfnValid (ptePfn e) = false := by
  rw [shown_tracePte]
  by_cases hvalid : k.pfnValid (ptePfn e) = false
  · simp [hvalid]
  rw [if_neg hvalid]
  constructor
  · exact fun h => .inl (h.1 _ (List.mem_cons_self ..)).1
  · rintro (hp | hv)
    · refine ⟨fun ev hev => ⟨hp, ?_⟩, ?_⟩
      · rintro pfn offset phys rfl
        rcases List.mem_cons.mp hev with heq | hram
        · cases heq
          exact phys_of_ptePresent hp va
        · split_ifs at hram <;> simp at hram
      · rintro (rfl | ⟨type, offset, rfl⟩)
        · exact absurd hp (by decide)
        · rw [swpEntry_not_present] at hp
          exact absurd hp (by decide)
    · exact absurd hv hvalid

/-- The walk reports mapped pages only, exactly when the last-level entry that it reaches, if it
reaches one, is present or has a frame number that is not valid. -/
theorem tracePageTableWalk_reportsMapped_iff (k : Kernel) (pid : CInt) (va : U64) :
    ReportsMapped (tracePageTableWalk k pid va) va ↔
      ∀ mm ∈ k.walkMm pid, ∀ e ∈ k.lastEntry mm va,
        ptePresent e = true ∨ k.pfnValid (ptePfn e) = false := by
  unfold ReportsMapped
  rw [reads_tracePageTableWalk, shown_tracePageTableWalk]
  cases k.walkMm pid with
  | none => simp
  | some mm =>
    simp only [mem_reads_traceLevels, shown_traceLevels, Option.mem_def, Option.some.injEq,
      forall_eq']
    cases k.lastEntry mm va with
    | none => simp
    | some e =>
      simp only [Option.some.injEq, exists_eq_left', forall_eq']
      exact tracePte_reportsMapped_iff k va _ e

/-- With an empty entry of the last level, the walk prints a physical address in frame 0. -/
theorem tracePageTableWalk_not_reportsMapped :
    ¬ ReportsMapped (tracePageTableWalk (.ofEntries [(0x1000000, 0x2067), (0x2000, 0x3067),
      (0x3000, 0x4067)]) 7 0x1234) 0x1234 := by
  rintro ⟨h, -⟩
  obtain ⟨e, hread, hpresent, -⟩ := h (.say (.phys 0 0x234 0x234)) (by decide)
  have hreads : reads (tracePageTableWalk (.ofEntries [(0x1000000, 0x2067), (0x2000, 0x3067),
      (0x3000, 0x4067)]) 7 0x1234) =
        [(.pml4, 0x2067), (.pdpt, 0x3067), (.pd, 0x4067), (.pt, 0)] := by
    decide
  simp only [hreads, List.mem_cons, Prod.mk.injEq, reduceCtorEq, false_and, true_and, false_or,
    List.not_mem_nil, or_false] at hread
  subst hread
  exact absurd hpresent (by decide)

/-! ## The walk and large pages -/

/-- The entry maps a large page. -/
def MapsLarge (e : U64) : Prop := e.getLsbD 0 = true ∧ e.getLsbD 7 = true

/-- The entry is present and points to a table. -/
def PointsToTable (e : U64) : Prop := e.getLsbD 0 = true ∧ e.getLsbD 7 = false

/-- The walk detects large pages. It says so of every PUD and PMD entry that it reaches and that
maps one, and it terminates at such an entry as none or bad only if the entry neither maps a large
page nor points to a table. -/
structure DetectsLarge (t : List (Event AxiomLine)) : Prop where
  gb : ∀ e, (.pdpt, e) ∈ reads t → MapsLarge e → .say .huge1G ∈ t
  mb : ∀ e, (.pd, e) ∈ reads t → MapsLarge e → .say .huge2M ∈ t
  terminated : ∀ l e, l = .pdpt ∨ l = .pd → (l, e) ∈ reads t → .say (.terminated l) ∈ t →
    ¬ MapsLarge e ∧ ¬ PointsToTable e

/-- An entry that neither maps a large page nor points to a table is absent. -/
theorem not_mapsLarge_and_not_pointsToTable {e : U64} :
    (¬ MapsLarge e ∧ ¬ PointsToTable e) ↔ e.getLsbD 0 = false := by
  unfold MapsLarge PointsToTable
  cases e.getLsbD 0 <;> cases e.getLsbD 7 <;> decide

/-- A line that judges the entry of a level. -/
def Event.judges : Event AxiomLine → Bool
  | say .huge1G => true
  | say .huge2M => true
  | say (.terminated _) => true
  | _ => false

/-- The lines of a walk that judge an entry. -/
def judgements (t : List (Event AxiomLine)) : List (Event AxiomLine) := t.filter Event.judges

/-- The end of the walk judges nothing. -/
theorem judgements_tracePte (k : Kernel) (va pteIdx pteVal : U64) :
    judgements (tracePte k va pteIdx pteVal) = [] := by
  simp only [tracePte]
  split_ifs <;> rfl

/-- The guards of the PUD level and of the PMD level accept no leaf, so a walk never says that it
found a large page. -/
theorem judgements_traceLevels (k : Kernel) (mm : Mm) (va : U64) :
    judgements (traceLevels k mm va) =
      if pgdNone k.cfg (k.pgdEntry mm va) || pgdBad k.cfg (k.pgdEntry mm va) then
        [.say (.terminated .pml4)]
      else if pudNone (k.pudEntry mm va) || pudBad (k.pudEntry mm va) then
        [.say (.terminated .pdpt)]
      else if pmdNone (k.pmdEntry mm va) || pmdBad (k.pmdEntry mm va) then
        [.say (.terminated .pd)]
      else [] := by
  by_cases hpgd : (pgdNone k.cfg (k.pgdEntry mm va) || pgdBad k.cfg (k.pgdEntry mm va)) = true
  · simp only [traceLevels, if_pos hpgd]
    rfl
  by_cases hpud : (pudNone (k.pudEntry mm va) || pudBad (k.pudEntry mm va)) = true
  · simp only [traceLevels, if_neg hpgd, if_pos hpud]
    rfl
  -- `pud_bad` has rejected every leaf, so the test for one is dead
  have hpudLeaf : ¬ pudLeaf (k.pudEntry mm va) = true := by
    rw [Bool.not_eq_true, Bool.or_eq_false_iff] at hpud
    rw [pudLeaf_eq, not_leaf_of_pudBad hpud.2]
    decide
  by_cases hpmd : (pmdNone (k.pmdEntry mm va) || pmdBad (k.pmdEntry mm va)) = true
  · simp only [traceLevels, if_neg hpgd, if_neg hpud, if_neg hpudLeaf, if_pos hpmd]
    rfl
  -- and so has `pmd_bad`
  have hpmdLeaf : ¬ pmdLeaf (k.pmdEntry mm va) = true := by
    rw [Bool.not_eq_true, Bool.or_eq_false_iff] at hpmd
    rw [pmdLeaf_eq, (table_of_pmdBad hpmd.2).2]
    decide
  simp only [traceLevels, if_neg hpgd, if_neg hpud, if_neg hpudLeaf, if_neg hpmd, if_neg hpmdLeaf]
  split_ifs
  · rfl
  · exact judgements_tracePte ..

/-- The walk judges what it judges under the lock. -/
theorem judgements_tracePageTableWalk (k : Kernel) (pid : CInt) (va : U64) :
    judgements (tracePageTableWalk k pid va) =
      match k.walkMm pid with
      | none => []
      | some mm => judgements (traceLevels k mm va) := by
  unfold tracePageTableWalk Kernel.walkMm
  cases k.walkTask pid with
  | none => rfl
  | some task =>
    obtain ⟨addr, comm, tpid, mm⟩ := task
    cases mm with
    | none => rfl
    | some mm => exact (List.filter_append _ _).trans (List.append_nil _)

/-- What a walk detects is read off its reads and its judgements. -/
theorem detectsLarge_iff {t : List (Event AxiomLine)} :
    DetectsLarge t ↔
      (∀ e, (.pdpt, e) ∈ reads t → (MapsLarge e → .say .huge1G ∈ judgements t) ∧
        (.say (.terminated .pdpt) ∈ judgements t → e.getLsbD 0 = false)) ∧
      ∀ e, (.pd, e) ∈ reads t → (MapsLarge e → .say .huge2M ∈ judgements t) ∧
        (.say (.terminated .pd) ∈ judgements t → e.getLsbD 0 = false) := by
  have hmem : ∀ ev : Event AxiomLine, ev.judges = true → (ev ∈ judgements t ↔ ev ∈ t) :=
    fun ev h => List.mem_filter.trans (and_iff_left h)
  rw [hmem _ rfl, hmem _ rfl, hmem _ rfl, hmem _ rfl]
  simp only [← not_mapsLarge_and_not_pointsToTable]
  constructor
  · intro ⟨gb, mb, terminated⟩
    exact ⟨fun e h => ⟨gb e h, terminated .pdpt e (.inl rfl) h⟩,
      fun e h => ⟨mb e h, terminated .pd e (.inr rfl) h⟩⟩
  · intro ⟨hpdpt, hpd⟩
    refine ⟨fun e h => (hpdpt e h).1, fun e h => (hpd e h).1, ?_⟩
    rintro l e (rfl | rfl) h
    · exact (hpdpt e h).2
    · exact (hpd e h).2

/-- The guards accept the entries of the middle levels that the walk reaches and that are
present. -/
def MiddleAccepted (k : Kernel) (mm : Mm) (va : U64) : Prop :=
  (pgdNone k.cfg (k.pgdEntry mm va) || pgdBad k.cfg (k.pgdEntry mm va)) = false →
    ((k.pudEntry mm va).getLsbD 0 = true → pudBad (k.pudEntry mm va) = false) ∧
    ((pudNone (k.pudEntry mm va) || pudBad (k.pudEntry mm va)) = false →
      (k.pmdEntry mm va).getLsbD 0 = true → pmdBad (k.pmdEntry mm va) = false)

/-- A guard that lets every present entry through as not none stops at absent entries only, exactly
when it calls no present entry bad. -/
theorem present_eq_false_iff_of_guard {none bad present : Bool} (h : present = true → none = false)
    (hguard : (none || bad) = true) : present = false ↔ (present = true → bad = false) := by
  cases none <;> cases bad <;> cases present <;> simp_all

/-- An absent entry maps no page. -/
theorem not_mapsLarge_of_absent {e : U64} (h : e.getLsbD 0 = false) : ¬ MapsLarge e :=
  (not_mapsLarge_and_not_pointsToTable.mpr h).1

/-- What is no leaf maps no large page. -/
theorem not_mapsLarge_of_not_leaf {e : U64} (h : e.getLsbD 7 = false) : ¬ MapsLarge e :=
  fun hlarge => Bool.false_ne_true (h.symm.trans hlarge.2)

/-- Under the lock, the walk detects large pages exactly when the guards accept the present entries
that it reaches, and so when there are no large pages. -/
theorem traceLevels_detectsLarge_iff (k : Kernel) (mm : Mm) (va : U64) :
    DetectsLarge (traceLevels k mm va) ↔ MiddleAccepted k mm va := by
  rw [detectsLarge_iff, reads_traceLevels, judgements_traceLevels, MiddleAccepted]
  by_cases hpgd : (pgdNone k.cfg (k.pgdEntry mm va) || pgdBad k.cfg (k.pgdEntry mm va)) = true
  · rw [hpgd]
    simp
  rw [Bool.not_eq_true] at hpgd
  rw [hpgd]
  have hpudNone := none_eq_false_of_present (e := k.pudEntry mm va)
  have hpmdNone := none_eq_false_of_present (e := k.pmdEntry mm va)
  by_cases hpud : (pudNone (k.pudEntry mm va) || pudBad (k.pudEntry mm va)) = true
  · -- the walk stops at the PUD entry
    have habsent := not_mapsLarge_of_absent (e := k.pudEntry mm va)
    rw [hpud, ← present_eq_false_iff_of_guard hpudNone hpud]
    simp +contextual [habsent, -BitVec.getLsbD_eq_getElem]
  rw [Bool.not_eq_true] at hpud
  have hpudBad := (Bool.or_eq_false_iff.mp hpud).2
  have hleaf := not_leaf_of_pudBad hpudBad
  have hlarge := not_mapsLarge_of_not_leaf hleaf
  rw [hpud, pudLeaf_eq, hleaf, hpudBad]
  by_cases hpmd : (pmdNone (k.pmdEntry mm va) || pmdBad (k.pmdEntry mm va)) = true
  · -- it stops at the PMD entry
    have habsent := not_mapsLarge_of_absent (e := k.pmdEntry mm va)
    rw [hpmd, ← present_eq_false_iff_of_guard hpmdNone hpmd]
    simp +contextual [hlarge, habsent, -BitVec.getLsbD_eq_getElem]
  · rw [Bool.not_eq_true] at hpmd
    have hpmdBad := (Bool.or_eq_false_iff.mp hpmd).2
    have hlarge' := not_mapsLarge_of_not_leaf (table_of_pmdBad hpmdBad).2
    rw [hpmd, hpmdBad]
    simp [hlarge, hlarge']

/-- The walk detects large pages exactly when the process has no address space to walk, or the
guards accept the present entries of the middle levels that it reaches. -/
theorem tracePageTableWalk_detectsLarge_iff (k : Kernel) (pid : CInt) (va : U64) :
    DetectsLarge (tracePageTableWalk k pid va) ↔ ∀ mm ∈ k.walkMm pid, MiddleAccepted k mm va := by
  rw [detectsLarge_iff, reads_tracePageTableWalk, judgements_tracePageTableWalk]
  cases k.walkMm pid with
  | none => simp
  | some mm =>
    rw [← detectsLarge_iff, traceLevels_detectsLarge_iff]
    simp

/-- For an address in a page of 2MB, the walk says that the PMD entry is none or bad. -/
theorem tracePageTableWalk_not_detectsLarge :
    ¬ DetectsLarge (tracePageTableWalk (.ofEntries largeEntries) 7 0x1234) := by
  intro h
  have hsay := h.mb 0x8000E7 (by decide) ⟨by decide, by decide⟩
  exact absurd hsay (by decide)

end KernelPortfolio
