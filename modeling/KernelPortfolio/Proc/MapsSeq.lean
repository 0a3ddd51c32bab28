import KernelPortfolio.Lib.Cursor
import KernelPortfolio.Lib.Schedule
import KernelPortfolio.Proc.MapsFormat

/-!
# How `/proc/PID/maps` is read

A read of the file is a session of `m_start`, `m_next` and `m_stop` with `show_map_vma` between
them. A record that does not fit into the reader's buffer is dropped with its session, and the next
read goes back to it. Between two reads the process may map and unmap, and while the file is read
under the locks of the single VMAs, also between two records.

`got_of_inv` connects the code to the cursor of the library: what the reader got is what a cursor
visits in the address spaces of the run. A VMA that is there throughout is shown once
(`existsUnique_shown`), no two records end at the same address (`shown_pairwise`), and where nothing
changes the file has the VMAs in their order, however it is read (`shown_eq`).
-/

namespace KernelPortfolio

/-- The first address of a VMA. -/
def MapsVma.lo (v : MapsVma) : ℕ := v.vmStart.toNat

/-- The address behind a VMA. -/
def MapsVma.hi (v : MapsVma) : ℕ := v.vmEnd.toNat

deriving instance DecidableEq for VmaName, MapsVma

/-- The VMAs of a process: in their order, and in the half of the addresses that processes have. -/
structure MmStruct where
  vmas : List MapsVma
  ordered : Cursor.Ordered MapsVma.lo MapsVma.hi vmas
  user : ∀ v ∈ vmas, v.hi < 2^63

/-- `find_vma`: the first VMA that ends above an address. -/
def MmStruct.findVma (mm : MmStruct) (addr : U64) : Option MapsVma :=
  Cursor.above MapsVma.hi addr.toNat mm.vmas

/-- What is fixed for an open file. -/
structure MapsFile where
  /-- The VMAs are locked one by one, as for `maps` with `CONFIG_PER_VMA_LOCK`; else the session
  holds the mmap lock. -/
  perVmaLock : Bool
  /-- `get_gate_vma`: the VMA of the vsyscall page, which no process owns. -/
  gateVma : Option MapsVma
  gate_high : ∀ g ∈ gateVma, 2^63 ≤ g.hi

namespace MapsSeq

/-- `SENTINEL_VMA_END`. -/
def sentinelVmaEnd : U64 := -1

/-- `SENTINEL_VMA_GATE`. -/
def sentinelVmaGate : U64 := -2

/-- Where a session is: what the last call of the iterator returned. -/
inductive Phase where
  /-- There is no session. -/
  | idle
  /-- A VMA, which may have been shown. -/
  | record (p : MapsVma) (shown : Bool)
  /-- `NULL`. -/
  | eof
  /-- `ERR_PTR(-ESRCH)`. -/
  | noTask
  /-- `ERR_PTR(-EINTR)`: only the death of the reader interrupts it. -/
  | killed

/-- An open file, and the address space that it shows. -/
structure Reader where
  mm : MmStruct
  /-- `priv->last_pos`. -/
  lastPos : U64
  /-- `priv->iter`: where it searches on. -/
  iter : U64
  /-- `priv->lock_ctx.mmap_locked`. -/
  mmapLocked : Bool
  /-- `priv->lock_ctx.locked_vma`. -/
  lockedVma : Option MapsVma
  /-- The position, which `m_start` and `m_next` get as `ppos`. -/
  index : U64
  phase : Phase
  /-- The records that the reader got. -/
  out : List MapsVma

/-- The file after `open`. -/
def opened (mm : MmStruct) : Reader := ⟨mm, 0, 0, false, none, 0, .idle, []⟩

/-- How `lock_next_vma` ends. With `-EAGAIN` the mmap lock is taken instead, and there are the VMAs
that there are then. -/
inductive LockNext where
  | locked
  | again (mm : MmStruct)
  | interrupted

/-- What `get_next_vma` returns. -/
inductive NextVma where
  | vma (v : Option MapsVma)
  | eagain (mm : MmStruct)
  | eintr

/-- `vma_next`. -/
def vmaNext (s : Reader) : Option MapsVma × Reader :=
  match s.mm.findVma s.iter with
  | none => (none, s)
  | some v => (some v, { s with iter := v.vmEnd })

/-- `lock_next_vma`, where it succeeds. -/
def lockNextVma (s : Reader) (lastPos : U64) : Option MapsVma × Reader :=
  vmaNext { s with iter := lastPos }

/-- `unlock_ctx_vma`. -/
def unlockCtxVma (s : Reader) : Reader := { s with lockedVma := none }

/-- `lock_vma_range`. -/
def lockVmaRange (f : MapsFile) (s : Reader) : Reader :=
  if f.perVmaLock then { s with lockedVma := none, mmapLocked := false }
  else { s with mmapLocked := true }

/-- `unlock_vma_range`. -/
def unlockVmaRange (s : Reader) : Reader := if s.mmapLocked then s else unlockCtxVma s

/-- `get_next_vma`. -/
def getNextVma (s : Reader) (lastPos : U64) (next : LockNext) : NextVma × Reader :=
  if s.mmapLocked then (.vma (vmaNext s).1, (vmaNext s).2)
  else
    let s := unlockCtxVma s
    match next with
    | .locked =>
      let found := lockNextVma s lastPos
      (.vma found.1, { found.2 with lockedVma := found.1 })
    | .again mm => (.eagain mm, s)
    | .interrupted => (.eintr, s)

/-- `fallback_to_mmap_lock`. -/
def fallbackToMmapLock (s : Reader) (pos : U64) (mm : MmStruct) : Reader :=
  { s with mm := mm, iter := pos, mmapLocked := true }

/-- What a pointer to a VMA is for the session. -/
def ofPtr : Option MapsVma → Phase
  | none => .eof
  | some v => .record v false

/-- The end of `proc_get_vma`, with a VMA or `NULL`. -/
def storeVma (f : MapsFile) (found : Option MapsVma × Reader) : Reader :=
  match found with
  | (some v, s) => { s with lastPos := s.index, index := v.vmEnd, phase := .record v false }
  | (none, s) =>
    { s with lastPos := s.index, index := sentinelVmaGate, phase := ofPtr f.gateVma }

/-- `proc_get_vma`. -/
def procGetVma (f : MapsFile) (s : Reader) (next : LockNext) : Reader :=
  match getNextVma s s.index next with
  | (.vma v, s) => storeVma f (v, s)
  -- the retry, which has the mmap lock
  | (.eagain mm, s) => storeVma f (vmaNext (fallbackToMmapLock s s.index mm))
  | (.eintr, s) => { s with phase := .killed }

/-- What `m_start` meets. -/
inductive Start where
  /-- `get_proc_task` finds no task. -/
  | noTask
  /-- Nobody uses the address space any more. -/
  | noMm
  /-- `mmap_read_lock_killable` fails. -/
  | interrupted
  | ready (next : LockNext)

/-- `m_start`. -/
def mStart (f : MapsFile) (s : Reader) (start : Start) : Option Reader :=
  if s.index = sentinelVmaEnd then some { s with phase := .eof }
  else
    match start with
    | .noTask => some { s with phase := .noTask }
    | .noMm => some { s with phase := .eof }
    | .interrupted => if f.perVmaLock then none else some { s with phase := .killed }
    | .ready next =>
      let s := lockVmaRange f s
      let lastAddr := if BitVec.slt 0 s.index then s.lastPos else s.index
      let s := { s with index := lastAddr, iter := lastAddr }
      if lastAddr = sentinelVmaGate then some { s with phase := ofPtr f.gateVma }
      else some (procGetVma f s next)

/-- `m_next`. -/
def mNext (f : MapsFile) (s : Reader) (next : LockNext) : Reader :=
  if s.index = sentinelVmaGate then { s with index := sentinelVmaEnd, phase := .eof }
  else procGetVma f s next

/-- `m_stop`. Where `m_start` took no lock there is none to release. -/
def mStop (s : Reader) : Reader := { unlockVmaRange s with phase := .idle }

/-- What happens to the file and to the process. -/
inductive Act where
  /-- The process maps or unmaps. -/
  | change (mm : MmStruct)
  | start (start : Start)
  | show
  | next (next : LockNext)
  | stop

/-- One step. A session begins with `m_start`; each record is shown before `m_next`, or dropped with
the session. Nobody changes the address space while the session holds the mmap lock, and nobody
changes the VMA that it holds. -/
def step (f : MapsFile) : Act → Reader → Option Reader
  | .change mm, s =>
    match s.phase with
    | .record _ _ =>
      if s.mmapLocked ∨ ∃ v ∈ s.lockedVma, v ∉ mm.vmas then none else some { s with mm := mm }
    | _ => some { s with mm := mm }
  | .start start, s =>
    match s.phase with
    | .idle => mStart f s start
    | _ => none
  | .show, s =>
    match s.phase with
    | .record p false => some { s with phase := .record p true, out := s.out ++ [p] }
    | _ => none
  | .next next, s =>
    match s.phase with
    | .record _ true => some (mNext f s next)
    | _ => none
  | .stop, s =>
    match s.phase with
    | .record _ false | .eof | .noTask => some (mStop s)
    | _ => none

/-- The address spaces that a step brings. -/
def Act.mms : Act → List MmStruct
  | .change mm | .start (.ready (.again mm)) | .next (.again mm) => [mm]
  | _ => []

/-- The file after a run. -/
abbrev run (f : MapsFile) (acts : List Act) (mm : MmStruct) : Reader :=
  Schedule.exec (step f) acts (opened mm)

/-! ## The cursor behind the file -/

variable {f : MapsFile} {mms : List MmStruct} {s s' : Reader} {a : Act}

/-- The VMAs of one of the address spaces. -/
def OneOf (mms : List MmStruct) (vmas : List MapsVma) : Prop := ∃ mm ∈ mms, mm.vmas = vmas

/-- A cursor came up to `c` in these address spaces, and visited `seen`. -/
abbrev Came (mms : List MmStruct) (c : ℕ) (seen : List MapsVma) : Prop :=
  Cursor.Walk MapsVma.hi (OneOf mms) 0 c seen

/-- The cursor found nothing more. -/
def CameThrough (mms : List MmStruct) (seen : List MapsVma) : Prop :=
  ∃ c vmas, Came mms c seen ∧ OneOf mms vmas ∧ Cursor.above MapsVma.hi c vmas = none

/-- A cursor stays in the half of the addresses that processes have. -/
theorem Came.lt {c : ℕ} {seen : List MapsVma} (h : Came mms c seen) : c < 2^63 := by
  cases h with
  | start => decide
  | visit _ hQ hfound =>
    obtain ⟨mm, -, rfl⟩ := hQ
    exact mm.user _ (Cursor.mem_and_lt_of_above hfound).1

/-- A position that a cursor can have is no sentinel, and `loff_t` does not make it negative. -/
theorem pos_spec {pos : U64} (h : pos.toNat < 2^63) :
    pos ≠ sentinelVmaEnd ∧ pos ≠ sentinelVmaGate ∧ (BitVec.slt 0 pos = true ↔ pos ≠ 0) := by
  refine ⟨?_, ?_, ?_⟩
  · rintro rfl
    exact absurd h (by decide)
  · rintro rfl
    exact absurd h (by decide)
  · have htoInt : pos.toInt = (pos.toNat : ℤ) := BitVec.toInt_eq_toNat_of_lt (by omega)
    have hne : pos ≠ 0 ↔ pos.toNat ≠ 0 := by
      rw [Ne, Ne, ← BitVec.toNat_inj]
      rfl
    rw [BitVec.slt_iff_toInt_lt, htoInt, hne]
    simp only [BitVec.ofNat_eq_ofNat, BitVec.toInt_zero]
    omega

/-- The address that `m_start` goes back to. -/
def lastAddr (s : Reader) : U64 := if BitVec.slt 0 s.index then s.lastPos else s.index

/-- What the reader got, between two sessions. -/
def Rests (f : MapsFile) (mms : List MmStruct) (s : Reader) : Prop :=
  (s.index = sentinelVmaEnd ∧ ∃ seen, CameThrough mms seen ∧ s.out = seen ++ f.gateVma.toList) ∨
    (s.index = sentinelVmaGate ∧ CameThrough mms s.out) ∨
    (s.index ≠ sentinelVmaEnd ∧ s.index ≠ sentinelVmaGate ∧ Came mms (lastAddr s).toNat s.out)

/-- The session is at a VMA, which is locked or cannot change with the address space. -/
def AtVma (s : Reader) (p : MapsVma) : Prop :=
  s.index = p.vmEnd ∧ s.iter = p.vmEnd ∧ p ∈ s.mm.vmas ∧
    (s.mmapLocked = true ∨ s.lockedVma = some p)

/-- The session is at a record that is not shown. -/
def Pending (f : MapsFile) (mms : List MmStruct) (s : Reader) (p : MapsVma) : Prop :=
  (s.index = sentinelVmaGate ∧ f.gateVma = some p ∧ CameThrough mms s.out) ∨
    (AtVma s p ∧ Came mms s.lastPos.toNat s.out ∧
      ∃ vmas, OneOf mms vmas ∧ Cursor.above MapsVma.hi s.lastPos.toNat vmas = some p)

/-- The session is at a record that is shown. -/
def Shown (f : MapsFile) (mms : List MmStruct) (s : Reader) (p : MapsVma) : Prop :=
  (s.index = sentinelVmaGate ∧ f.gateVma = some p ∧
      ∃ seen, CameThrough mms seen ∧ s.out = seen ++ [p]) ∨
    (AtVma s p ∧ Came mms p.hi s.out)

/-- What holds of a file while it is read. -/
def Inv (f : MapsFile) (mms : List MmStruct) (s : Reader) : Prop :=
  s.mm ∈ mms ∧
    match s.phase with
    | .idle | .eof | .noTask => Rests f mms s
    | .record p false => Pending f mms s p
    | .record p true => Shown f mms s p
    | .killed => (s.index = sentinelVmaGate ∧ CameThrough mms s.out) ∨
        (s.index ≠ sentinelVmaEnd ∧ s.index ≠ sentinelVmaGate ∧ ∃ c, Came mms c s.out)

/-- What `vma_next` finds, where the iterator is at the position. -/
theorem vmaNext_spec (s : Reader) :
    (vmaNext s).1 = Cursor.above MapsVma.hi s.iter.toNat s.mm.vmas ∧
      (vmaNext s).2 = { s with iter := ((vmaNext s).1.map MapsVma.vmEnd).getD s.iter } := by
  unfold vmaNext MmStruct.findVma
  cases Cursor.above MapsVma.hi s.iter.toNat s.mm.vmas <;> exact ⟨rfl, rfl⟩

/-- The end of `proc_get_vma` keeps the invariant: it has found what the cursor finds. -/
theorem inv_storeVma {found : Option MapsVma} (hmm : s.mm ∈ mms)
    (hcame : Came mms s.index.toNat s.out)
    (hfound : found = Cursor.above MapsVma.hi s.index.toNat s.mm.vmas)
    (hiter : ∀ v, found = some v → s.iter = v.vmEnd)
    (hlock : ∀ v, found = some v → s.mmapLocked = true ∨ s.lockedVma = some v) :
    Inv f mms (storeVma f (found, s)) := by
  have hone : OneOf mms s.mm.vmas := ⟨s.mm, hmm, rfl⟩
  cases hf : found with
  | some v =>
    rw [hf] at hfound
    refine ⟨hmm, .inr ⟨⟨rfl, hiter v hf, ?_, hlock v hf⟩, hcame, _, hone, hfound.symm⟩⟩
    exact (Cursor.mem_and_lt_of_above hfound.symm).1
  | none =>
    rw [hf] at hfound
    have hthrough : CameThrough mms s.out := ⟨_, _, hcame, hone, hfound.symm⟩
    refine ⟨hmm, ?_⟩
    unfold storeVma ofPtr
    cases hg : f.gateVma with
    | none => exact .inr (.inl ⟨rfl, hthrough⟩)
    | some g => exact .inl ⟨rfl, hg, hthrough⟩

/-- `proc_get_vma` keeps the invariant. -/
theorem inv_procGetVma {next : LockNext} (hmm : s.mm ∈ mms)
    (hagain : ∀ mm, next = .again mm → mm ∈ mms) (hcame : Came mms s.index.toNat s.out)
    (hiter : s.mmapLocked = true → s.iter = s.index) : Inv f mms (procGetVma f s next) := by
  -- a search from the position, with the mmap lock
  have hsearch (s : Reader) (hmm : s.mm ∈ mms) (hcame : Came mms s.index.toNat s.out)
      (hiter : s.iter = s.index) (hlock : s.mmapLocked = true) :
      Inv f mms (storeVma f (vmaNext s)) := by
    obtain ⟨hfound, hrest⟩ := vmaNext_spec s
    rw [show vmaNext s = ((vmaNext s).1, (vmaNext s).2) from rfl, hrest]
    refine inv_storeVma hmm hcame (by rw [hfound, hiter]) ?_ (fun _ _ => .inl hlock)
    intro v hv
    simp [hv]
  unfold procGetVma getNextVma
  cases hlocked : s.mmapLocked with
  | true => exact hsearch s hmm hcame (hiter hlocked) hlocked
  | false =>
    cases next with
    | locked =>
      obtain ⟨hfound, hrest⟩ := vmaNext_spec { unlockCtxVma s with iter := s.index }
      simp only [Bool.false_eq_true, if_false, lockNextVma]
      rw [hrest]
      refine inv_storeVma hmm hcame hfound ?_ ?_
      · intro v hv
        simp [hv]
      · intro v hv
        exact .inr hv
    | again mm => exact hsearch _ (hagain mm rfl) hcame rfl rfl
    | interrupted =>
      obtain ⟨hend, hgate, -⟩ := pos_spec hcame.lt
      exact ⟨hmm, .inr ⟨hend, hgate, _, hcame⟩⟩

/-- `m_start` keeps the invariant. -/
theorem inv_mStart {start : Start} (hmm : s.mm ∈ mms) (hrests : Rests f mms s)
    (hagain : ∀ mm, start = .ready (.again mm) → mm ∈ mms) (h : mStart f s start = some s') :
    Inv f mms s' := by
  unfold mStart at h
  by_cases hend : s.index = sentinelVmaEnd
  · rw [if_pos hend] at h
    obtain rfl := Option.some.inj h
    exact ⟨hmm, hrests⟩
  · rw [if_neg hend] at h
    cases start with
    | noTask =>
      obtain rfl := Option.some.inj h
      exact ⟨hmm, hrests⟩
    | noMm =>
      obtain rfl := Option.some.inj h
      exact ⟨hmm, hrests⟩
    | interrupted =>
      simp only at h
      split_ifs at h
      obtain rfl := Option.some.inj h
      refine ⟨hmm, ?_⟩
      rcases hrests with ⟨heq, -⟩ | hgate | ⟨-, hgate, hcame⟩
      · exact absurd heq hend
      · exact .inl hgate
      · exact .inr ⟨hend, hgate, _, hcame⟩
    | ready next =>
      -- the locks change nothing that the invariant reads
      have hlocks : (lockVmaRange f s).index = s.index ∧ (lockVmaRange f s).lastPos = s.lastPos ∧
          (lockVmaRange f s).mm = s.mm ∧ (lockVmaRange f s).out = s.out := by
        unfold lockVmaRange
        split_ifs <;> exact ⟨rfl, rfl, rfl, rfl⟩
      obtain ⟨hindex, hlastPos, hmm', hout⟩ := hlocks
      simp only [hindex, hlastPos] at h
      change (if lastAddr s = sentinelVmaGate then _ else _) = _ at h
      rcases hrests with ⟨heq, -⟩ | ⟨hgate, hthrough⟩ | ⟨-, -, hcame⟩
      · exact absurd heq hend
      · have hlast : lastAddr s = sentinelVmaGate := by
          unfold lastAddr
          rw [hgate]
          exact if_neg (by decide)
        rw [if_pos hlast] at h
        obtain rfl := Option.some.inj h
        refine ⟨hmm' ▸ hmm, ?_⟩
        unfold ofPtr
        cases hg : f.gateVma with
        | none => exact .inr (.inl ⟨hlast, hout ▸ hthrough⟩)
        | some g => exact .inl ⟨hlast, hg, hout ▸ hthrough⟩
      · rw [if_neg (pos_spec hcame.lt).2.1] at h
        obtain rfl := Option.some.inj h
        refine inv_procGetVma (hmm' ▸ hmm) ?_ (hout ▸ hcame) (fun _ => rfl)
        intro mm hnext
        exact hagain mm (congrArg Start.ready hnext)

/-- `m_next` keeps the invariant. -/
theorem inv_mNext {p : MapsVma} {next : LockNext} (hmm : s.mm ∈ mms) (hshown : Shown f mms s p)
    (hagain : ∀ mm, next = .again mm → mm ∈ mms) : Inv f mms (mNext f s next) := by
  unfold mNext
  rcases hshown with ⟨hgate, hg, seen, hthrough, hout⟩ | ⟨⟨hindex, hiter, -, -⟩, hcame⟩
  · rw [if_pos hgate]
    refine ⟨hmm, .inl ⟨rfl, seen, hthrough, ?_⟩⟩
    rw [hg]
    exact hout
  · have hpos : p.vmEnd.toNat < 2^63 := hcame.lt
    rw [if_neg (by rw [hindex]; exact (pos_spec hpos).2.1)]
    exact inv_procGetVma hmm hagain (by rw [hindex]; exact hcame) fun _ => hiter.trans hindex.symm

/-- `m_stop` leaves what the reader got. -/
theorem rests_mStop (h : Rests f mms s) : Rests f mms (mStop s) := by
  unfold mStop unlockVmaRange
  split_ifs <;> exact h

/-- A record that is dropped is behind the place that `m_start` goes back to. -/
theorem rests_of_pending {p : MapsVma} (h : Pending f mms s p) : Rests f mms s := by
  rcases h with ⟨hgate, -, hthrough⟩ | ⟨⟨hindex, -, -, -⟩, hcame, vmas, ⟨mm, -, rfl⟩, hfound⟩
  · exact .inr (.inl ⟨hgate, hthrough⟩)
  · obtain ⟨hmem, hlt⟩ := Cursor.mem_and_lt_of_above hfound
    have huser : p.vmEnd.toNat < 2^63 := mm.user p hmem
    obtain ⟨hend, hgate, hslt⟩ := pos_spec huser
    have hne : p.vmEnd ≠ 0 := by
      intro hzero
      rw [MapsVma.hi, hzero] at hlt
      exact absurd hlt (Nat.not_lt_zero _)
    refine .inr (.inr ⟨by rwa [hindex], by rwa [hindex], ?_⟩)
    unfold lastAddr
    rw [hindex, if_pos (hslt.mpr hne)]
    exact hcame

/-- Every step keeps the invariant. -/
theorem inv_step (hstep : step f a s = some s') (hinv : Inv f mms s)
    (hmms : ∀ mm ∈ a.mms, mm ∈ mms) : Inv f mms s' := by
  obtain ⟨hmm, hphase⟩ := hinv
  cases a with
  | change mm =>
    have hnew : mm ∈ mms := hmms mm (List.mem_singleton_self mm)
    simp only [step] at hstep
    cases hp : s.phase with
    | record p shown =>
      rw [hp] at hstep hphase
      simp only at hstep
      split_ifs at hstep with hblocked
      obtain rfl := Option.some.inj hstep
      rw [not_or] at hblocked
      -- the VMA of the session is locked, so that it is still there
      have hat (hold : AtVma s p) : AtVma { s with mm := mm } p := by
        obtain ⟨hindex, hiter, -, hlock⟩ := hold
        have hheld := hlock.resolve_left hblocked.1
        refine ⟨hindex, hiter, ?_, .inr hheld⟩
        by_contra hgone
        exact hblocked.2 ⟨p, hheld, hgone⟩
      refine ⟨hnew, ?_⟩
      cases shown with
      | false => exact hphase.imp_right fun ⟨hold, hrest⟩ => ⟨hat hold, hrest⟩
      | true => exact hphase.imp_right fun ⟨hold, hrest⟩ => ⟨hat hold, hrest⟩
    | idle | eof | noTask | killed =>
      rw [hp] at hstep hphase
      obtain rfl := Option.some.inj hstep
      exact ⟨hnew, hphase⟩
  | start start =>
    simp only [step] at hstep
    cases hp : s.phase with
    | idle =>
      rw [hp] at hstep hphase
      refine inv_mStart hmm hphase ?_ hstep
      rintro mm rfl
      exact hmms mm (List.mem_singleton_self mm)
    | record | eof | noTask | killed => simp [hp] at hstep
  | «show» =>
    simp only [step] at hstep
    cases hp : s.phase with
    | record p shown =>
      rw [hp] at hstep hphase
      cases shown with
      | true => simp at hstep
      | false =>
        obtain rfl := Option.some.inj hstep
        refine ⟨hmm, ?_⟩
        rcases hphase with ⟨hgate, hg, hthrough⟩ | ⟨hat, hcame, vmas, hone, hfound⟩
        · exact .inl ⟨hgate, hg, _, hthrough, rfl⟩
        · exact .inr ⟨hat, hcame.visit hone hfound⟩
    | idle | eof | noTask | killed => simp [hp] at hstep
  | next next =>
    simp only [step] at hstep
    cases hp : s.phase with
    | record p shown =>
      rw [hp] at hstep hphase
      cases shown with
      | false => simp at hstep
      | true =>
        obtain rfl := Option.some.inj hstep
        refine inv_mNext hmm hphase ?_
        rintro mm rfl
        exact hmms mm (List.mem_singleton_self mm)
    | idle | eof | noTask | killed => simp [hp] at hstep
  | stop =>
    simp only [step] at hstep
    -- the invariant of a file without a session
    have hstop (hrests : Rests f mms s) : Inv f mms (mStop s) := by
      refine ⟨?_, rests_mStop hrests⟩
      unfold mStop unlockVmaRange
      split_ifs <;> exact hmm
    cases hp : s.phase with
    | record p shown =>
      rw [hp] at hstep hphase
      cases shown with
      | true => simp at hstep
      | false =>
        obtain rfl := Option.some.inj hstep
        exact hstop (rests_of_pending hphase)
    | eof | noTask =>
      rw [hp] at hstep hphase
      obtain rfl := Option.some.inj hstep
      exact hstop hphase
    | idle | killed => simp [hp] at hstep

/-- The address spaces of a run. -/
def allMms (mm : MmStruct) (acts : List Act) : List MmStruct := mm :: acts.flatMap Act.mms

/-- The invariant holds after every run. -/
theorem inv_run (f : MapsFile) (acts : List Act) (mm : MmStruct) :
    Inv f (allMms mm acts) (run f acts mm) := by
  have hstart : Inv f (allMms mm acts) (opened mm) :=
    ⟨List.mem_cons_self .., .inr (.inr ⟨(by decide : (0 : U64) ≠ sentinelVmaEnd),
      (by decide : (0 : U64) ≠ sentinelVmaGate), .start⟩)⟩
  refine Schedule.exec_of_invariant (C := fun a _ => ∀ m ∈ a.mms, m ∈ allMms mm acts)
    (fun a s s' hstep hinv hmms => inv_step hstep hinv hmms) hstart ?_
  rw [Schedule.along_iff]
  intro pre a post hacts _ m hm
  refine List.mem_cons_of_mem _ (List.mem_flatMap.mpr ⟨a, ?_, hm⟩)
  rw [hacts]
  simp

/-- What the reader got, by the position: at the gate VMA and behind it the cursor is through. -/
def Got (f : MapsFile) (mms : List MmStruct) (s : Reader) : Prop :=
  (s.index = sentinelVmaEnd ∧ ∃ seen, CameThrough mms seen ∧ s.out = seen ++ f.gateVma.toList) ∨
    (s.index = sentinelVmaGate ∧ ∃ seen gate, CameThrough mms seen ∧ s.out = seen ++ gate ∧
      (gate = [] ∨ gate = f.gateVma.toList)) ∨
    (s.index ≠ sentinelVmaEnd ∧ s.index ≠ sentinelVmaGate ∧ ∃ c, Came mms c s.out)

/-- The invariant says what the reader got. -/
theorem got_of_inv (h : Inv f mms s) : Got f mms s := by
  obtain ⟨-, hphase⟩ := h
  have hrests : Rests f mms s → Got f mms s := by
    rintro (hend | ⟨hgate, hthrough⟩ | ⟨h1, h2, hcame⟩)
    · exact .inl hend
    · exact .inr (.inl ⟨hgate, s.out, [], hthrough, (List.append_nil _).symm, .inl rfl⟩)
    · exact .inr (.inr ⟨h1, h2, _, hcame⟩)
  cases hp : s.phase with
  | record p shown =>
    rw [hp] at hphase
    cases shown with
    | false => exact hrests (rests_of_pending hphase)
    | true =>
      rcases hphase with ⟨hgate, hg, seen, hthrough, hout⟩ | ⟨⟨hindex, -, hmem, -⟩, hcame⟩
      · exact .inr (.inl ⟨hgate, seen, [p], hthrough, hout, .inr (by rw [hg]; rfl)⟩)
      · obtain ⟨h1, h2, -⟩ := pos_spec (s.mm.user p hmem)
        exact .inr (.inr ⟨by rwa [hindex], by rwa [hindex], _, hcame⟩)
  | idle | eof | noTask =>
    rw [hp] at hphase
    exact hrests hphase
  | killed =>
    rw [hp] at hphase
    rcases hphase with hgate | hcame
    · exact hrests (.inr (.inl hgate))
    · exact .inr (.inr hcame)

/-- The records end in increasing order. -/
theorem Got.pairwise (h : Got f mms s) : s.out.Pairwise fun v w => v.hi < w.hi := by
  -- what a cursor visited, and the gate VMA, which is above all that a process has
  have hgate {c : ℕ} {seen : List MapsVma} (hcame : Came mms c seen) :
      (seen ++ f.gateVma.toList).Pairwise fun v w => v.hi < w.hi := by
    rw [List.pairwise_append]
    refine ⟨hcame.pairwise, ?_, ?_⟩
    · cases f.gateVma with
      | none => exact List.Pairwise.nil
      | some g => exact List.pairwise_singleton _ _
    · intro v hv g hg
      calc v.hi ≤ c := (hcame.le.2 v hv).2
        _ < 2^63 := hcame.lt
        _ ≤ g.hi := f.gate_high g (Option.mem_toList.mp hg)
  rcases h with ⟨-, seen, ⟨c, -, hcame, -⟩, hout⟩ | ⟨-, seen, gate, ⟨c, -, hcame, -⟩, hout, hor⟩ |
    ⟨-, -, c, hcame⟩
  · rw [hout]
    exact hgate hcame
  · rcases hor with rfl | rfl
    · rw [hout, List.append_nil]
      exact hcame.pairwise
    · rw [hout]
      exact hgate hcame
  · exact hcame.pairwise

/-- Whatever becomes of the address space while the file is read, no two of the records end at the
same address or against their order, and each is a VMA that is there when it is shown. -/
theorem shown_pairwise (f : MapsFile) (acts : List Act) (mm : MmStruct) :
    ((run f acts mm).out.Pairwise fun v w => v.hi < w.hi) ∧
      Schedule.Along (step f) (fun a s => ∀ p, a = .show → s.phase = .record p false →
        p ∈ s.mm.vmas ∨ p ∈ f.gateVma) acts (opened mm) := by
  refine ⟨(got_of_inv (inv_run f acts mm)).pairwise, ?_⟩
  rw [Schedule.along_iff]
  rintro pre a post - - p rfl hp
  obtain ⟨-, hphase⟩ := inv_run f pre mm
  rw [hp] at hphase
  rcases hphase with ⟨-, hg, -⟩ | ⟨⟨-, -, hmem, -⟩, -⟩
  · exact .inr hg
  · exact .inl hmem

/-- A VMA that is there throughout is shown once, if the reader comes to the end of the process's
VMAs: whatever happens to its neighbours, and wherever the reads end. -/
theorem existsUnique_shown {f : MapsFile} {acts : List Act} {mm : MmStruct} {v : MapsVma}
    (hv : ∀ m ∈ allMms mm acts, v ∈ m.vmas)
    (hend : (run f acts mm).index = sentinelVmaGate ∨ (run f acts mm).index = sentinelVmaEnd) :
    ∃! i : ℕ, (run f acts mm).out[i]? = some v := by
  have hgot := got_of_inv (inv_run f acts mm)
  obtain ⟨seen, gate, ⟨c, vmas, hcame, ⟨m, hm, rfl⟩, hnone⟩, hout⟩ :
      ∃ seen gate, CameThrough (allMms mm acts) seen ∧ (run f acts mm).out = seen ++ gate := by
    rcases hgot with ⟨-, seen, hthrough, hout⟩ | ⟨-, seen, gate, hthrough, hout, -⟩ | ⟨h1, h2, -⟩
    · exact ⟨seen, _, hthrough, hout⟩
    · exact ⟨seen, gate, hthrough, hout⟩
    · exact (hend.elim h2 h1).elim
  have hstay : ∀ xs, OneOf (allMms mm acts) xs →
      Cursor.Ordered MapsVma.lo MapsVma.hi xs ∧ v ∈ xs := by
    rintro xs ⟨m', hm', rfl⟩
    exact ⟨m'.ordered, hv m' hm'⟩
  have hne := m.ordered.nonempty v (hv m hm)
  have hmem : v ∈ (run f acts mm).out := by
    rw [hout]
    apply List.mem_append_left
    rw [hcame.mem_iff hstay hne (Nat.zero_lt_of_lt hne)]
    exact Cursor.above_eq_none.mp hnone v (hv m hm)
  exact Cursor.existsUnique_getElem? hgot.pairwise hmem

/-- The reader is at the end of the file. -/
def AtEnd (f : MapsFile) (s : Reader) : Prop :=
  s.index = sentinelVmaEnd ∨ s.index = sentinelVmaGate ∧ f.gateVma = none

/-- Where the address space does not change, the file is its VMAs and the gate VMA, in however many
reads the reader got it, and however many records were dropped and found again. -/
theorem shown_eq {f : MapsFile} {acts : List Act} {mm : MmStruct}
    (hsame : ∀ m ∈ allMms mm acts, m.vmas = mm.vmas) (hend : AtEnd f (run f acts mm)) :
    (run f acts mm).out = mm.vmas ++ f.gateVma.toList := by
  -- a cursor that came through has visited all of the VMAs
  have hall {seen : List MapsVma} (h : CameThrough (allMms mm acts) seen) : seen = mm.vmas := by
    obtain ⟨c, vmas, hcame, ⟨m, hm, rfl⟩, hnone⟩ := h
    have hwalk : Cursor.Walk MapsVma.hi (· = mm.vmas) 0 c seen := by
      refine hcame.mono ?_
      rintro xs ⟨m', hm', rfl⟩
      exact hsame m' hm'
    rw [hsame m hm] at hnone
    refine hwalk.eq_of_above_eq_none mm.ordered ?_ hnone
    exact fun v hv => Nat.zero_lt_of_lt (mm.ordered.nonempty v hv)
  rcases got_of_inv (inv_run f acts mm) with ⟨-, seen, hthrough, hout⟩ |
    ⟨hgate, seen, gate, hthrough, hout, hor⟩ | ⟨h1, h2, -⟩
  · rw [hout, hall hthrough]
  · have hnone : f.gateVma = none := by
      rcases hend with hend | ⟨-, hnone⟩
      · exact absurd (hgate.symm.trans hend) (by decide)
      · exact hnone
    rw [hout, hall hthrough, hnone]
    rcases hor with rfl | rfl
    · rfl
    · rw [hnone]
  · rcases hend with hend | ⟨hgate, -⟩
    · exact absurd hend h1
    · exact absurd hgate h2

/-! ## Two runs -/

/-- A VMA of a page, without a file. -/
def demoVma (start : U64) : MapsVma := ⟨start, start + 4096, 3, 0, 0, 0, .unnamed⟩

/-- An address space of two pages. -/
def demoMm : MmStruct where
  vmas := [demoVma 0x1000, demoVma 0x3000]
  ordered := ⟨by decide, by decide⟩
  user := by decide

/-- The address space after the first page is unmapped. -/
def demoUnmapped : MmStruct where
  vmas := [demoVma 0x3000]
  ordered := ⟨by decide, by decide⟩
  user := by decide

/-- `maps`, on a machine without a vsyscall page. -/
def demoFile : MapsFile := ⟨true, none, by simp⟩

/-- The first record is shown, the second one does not fit, and the first VMA is unmapped before the
file is read on. -/
def demoActs : List Act :=
  [.start (.ready .locked), .show, .next .locked, .stop, .change demoUnmapped,
    .start (.ready (.again demoUnmapped)), .show, .next .locked]

/-- `existsUnique_shown` for the second page. -/
theorem existsUnique_shown_demo :
    ∃! i : ℕ, (run demoFile demoActs demoMm).out[i]? = some (demoVma 0x3000) :=
  existsUnique_shown (by decide) (by decide)

/-- `shown_eq`, where the second record is read later. -/
theorem shown_eq_demo :
    (run demoFile [.start (.ready .locked), .show, .next .locked, .stop,
      .start (.ready .locked), .show, .next .locked] demoMm).out =
      demoMm.vmas ++ demoFile.gateVma.toList :=
  shown_eq (by decide) (.inr (by decide))

end MapsSeq

end KernelPortfolio
