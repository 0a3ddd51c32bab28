import KernelPortfolio.Proc.MapsSeq
import Mathlib.Data.List.Find

/-!
# How `PROCMAP_QUERY` finds a VMA

The ioctl of `/proc/PID/maps` looks for the VMA of an address, or for the next one, that has the
permissions that are asked for. It takes one VMA after another, and while the VMAs are locked one by
one the process may map and unmap between two of them.

What is returned is what was asked for (`satisfies_iff`), and locked. No VMA that is there
throughout and is what was asked for is passed over, whatever becomes of the others
(`answerOk_queryMatchingVma`), and where nothing changes the answer is the first such VMA
(`queryMatchingVma_eq`), wherever the query falls back to the mmap lock.
-/

namespace KernelPortfolio.ProcmapQuery

/-- The flags of a query. -/
structure QueryFlags where
  /-- `PROCMAP_QUERY_VMA_READABLE`. -/
  vmaReadable : Bool
  /-- `PROCMAP_QUERY_VMA_WRITABLE`. -/
  vmaWritable : Bool
  /-- `PROCMAP_QUERY_VMA_EXECUTABLE`. -/
  vmaExecutable : Bool
  /-- `PROCMAP_QUERY_VMA_SHARED`. -/
  vmaShared : Bool
  /-- `PROCMAP_QUERY_COVERING_OR_NEXT_VMA`. -/
  coveringOrNextVma : Bool
  /-- `PROCMAP_QUERY_FILE_BACKED_VMA`. -/
  fileBackedVma : Bool

/-- `struct proc_maps_locking_ctx`. -/
structure LockCtx where
  /-- `mmap_locked`: the VMAs that the mmap lock keeps as they are. -/
  mmapLocked : Option MmStruct
  /-- `locked_vma`. -/
  lockedVma : Option MapsVma

/-- How `lock_next_vma` ends, and the VMAs that there are then. With `-EAGAIN` the mmap lock is
taken instead. -/
inductive Next where
  | locked (mm : MmStruct)
  | again (mm : MmStruct)
  | interrupted

/-- What `query_matching_vma` returns. -/
inductive Answer where
  | vma (v : MapsVma)
  /-- `ERR_PTR(-ENOENT)`. -/
  | enoent
  /-- `ERR_PTR(-EINTR)`. -/
  | eintr
  deriving DecidableEq

/-- `query_vma_setup`, where it succeeds: without `CONFIG_PER_VMA_LOCK` the mmap lock is taken. -/
def queryVmaSetup (perVmaLock : Bool) (mm : MmStruct) : LockCtx :=
  if perVmaLock then ⟨none, none⟩ else ⟨some mm, none⟩

/-- `query_vma_find_by_addr`. It returns `none` for an error. -/
def queryVmaFindByAddr (ctx : LockCtx) (addr : U64) (next : Next) :
    Option (Option MapsVma) × LockCtx :=
  match ctx.mmapLocked with
  | some mm => (some (mm.findVma addr), ctx)
  | none =>
    -- the VMA of the last round is unlocked first
    match next with
    | .locked mm => (some (mm.findVma addr), ⟨none, mm.findVma addr⟩)
    | .again mm => (some (mm.findVma addr), ⟨some mm, none⟩)
    | .interrupted => (none, ⟨none, none⟩)

variable (vmFile : MapsVma → Bool) (flags : QueryFlags)

/-- The permissions that the VMA has to have. -/
def perm : U64 :=
  (if flags.vmaReadable then vmRead else 0) ||| (if flags.vmaWritable then vmWrite else 0) |||
    (if flags.vmaExecutable then vmExec else 0) ||| if flags.vmaShared then vmMayshare else 0

/-- A VMA is not skipped. `vmFile` says whether it has a file. -/
def satisfies (vma : MapsVma) : Bool :=
  if flags.fileBackedVma && !vmFile vma then false
  else if flags.vmaReadable || flags.vmaWritable || flags.vmaExecutable || flags.vmaShared then
    vma.vmFlags &&& perm flags == perm flags
  else true

/-- `query_matching_vma`. Each round begins behind the VMA of the last one, so that there are no
more rounds than addresses. -/
def queryMatchingVma : ℕ → LockCtx → U64 → (ℕ → Next) → Option Answer × LockCtx
  | 0, ctx, _, _ => (none, ctx)
  | rounds + 1, ctx, addr, nexts =>
    match queryVmaFindByAddr ctx addr (nexts 0) with
    | (none, ctx) => (some .eintr, ctx)
    | (some none, ctx) => (some .enoent, ctx)
    | (some (some vma), ctx) =>
      if satisfies vmFile flags vma && (flags.coveringOrNextVma || vma.vmStart ≤ addr) then
        (some (.vma vma), ctx)
      else if flags.coveringOrNextVma then
        -- the closest one is asked for, and it may lie behind this one
        queryMatchingVma rounds ctx vma.vmEnd fun i => nexts (i + 1)
      else (some .enoent, ctx)

/-! ## What is asked for -/

variable {vmFile flags}

/-- A mask of which a word has everything. -/
theorem and_eq_iff (x m : U64) :
    x &&& m = m ↔ ∀ i, m.getLsbD i = true → x.getLsbD i = true := by
  constructor
  · intro h i hi
    have hbit := congrArg (BitVec.getLsbD · i) h
    simp only [BitVec.getLsbD_and, hi, Bool.and_true] at hbit
    exact hbit
  · intro h
    apply BitVec.eq_of_getLsbD_eq
    intro i _
    rw [BitVec.getLsbD_and]
    cases hm : m.getLsbD i with
    | false => exact Bool.and_false _
    | true => rw [h i hm, Bool.true_and]

/-- A flag that may be in the mask. -/
theorem getLsbD_ite (b : Bool) {n : ℕ} (hn : n < 64) (i : ℕ) :
    (if b then BitVec.twoPow 64 n else 0).getLsbD i = true ↔ b = true ∧ i = n := by
  cases b with
  | false => simp
  | true =>
    rw [if_pos rfl, BitVec.getLsbD_twoPow, Bool.and_eq_true, decide_eq_true_iff, decide_eq_true_iff]
    constructor
    · exact fun h => ⟨rfl, h.2.symm⟩
    · rintro ⟨-, rfl⟩
      exact ⟨hn, rfl⟩

/-- The bits of the mask. -/
theorem getLsbD_perm (i : ℕ) :
    (perm flags).getLsbD i = true ↔ ((flags.vmaReadable = true ∧ i = 0 ∨
      flags.vmaWritable = true ∧ i = 1) ∨ flags.vmaExecutable = true ∧ i = 2) ∨
      flags.vmaShared = true ∧ i = 7 := by
  unfold perm vmRead vmWrite vmExec vmMayshare
  rw [BitVec.getLsbD_or, BitVec.getLsbD_or, BitVec.getLsbD_or, Bool.or_eq_true, Bool.or_eq_true,
    Bool.or_eq_true, getLsbD_ite _ (by decide), getLsbD_ite _ (by decide),
    getLsbD_ite _ (by decide), getLsbD_ite _ (by decide)]

/-- What is asked for: a file, and each of the permissions. -/
theorem satisfies_iff (v : MapsVma) :
    satisfies vmFile flags v = true ↔
      (flags.fileBackedVma = true → vmFile v = true) ∧
        (flags.vmaReadable = true → v.vmFlags.getLsbD 0 = true) ∧
        (flags.vmaWritable = true → v.vmFlags.getLsbD 1 = true) ∧
        (flags.vmaExecutable = true → v.vmFlags.getLsbD 2 = true) ∧
        (flags.vmaShared = true → v.vmFlags.getLsbD 7 = true) := by
  have hperm : (v.vmFlags &&& perm flags == perm flags) = true ↔
      (flags.vmaReadable = true → v.vmFlags.getLsbD 0 = true) ∧
        (flags.vmaWritable = true → v.vmFlags.getLsbD 1 = true) ∧
        (flags.vmaExecutable = true → v.vmFlags.getLsbD 2 = true) ∧
        (flags.vmaShared = true → v.vmFlags.getLsbD 7 = true) := by
    rw [beq_iff_eq, and_eq_iff]
    simp only [getLsbD_perm, or_imp, forall_and, and_imp, forall_eq_apply_imp_iff, and_assoc]
  unfold satisfies
  by_cases hfile : (flags.fileBackedVma && !vmFile v) = true
  · rw [if_pos hfile]
    rw [Bool.and_eq_true, Bool.not_eq_true'] at hfile
    refine ⟨nofun, fun h => ?_⟩
    rw [h.1 hfile.1] at hfile
    exact absurd hfile.2 (by decide)
  rw [if_neg hfile]
  have hbacked : flags.fileBackedVma = true → vmFile v = true := by
    intro h
    by_contra hnone
    rw [Bool.not_eq_true] at hnone
    exact hfile (by rw [h, hnone]; rfl)
  by_cases hany : (flags.vmaReadable || flags.vmaWritable || flags.vmaExecutable ||
      flags.vmaShared) = true
  · rw [if_pos hany, hperm]
    exact (and_iff_right hbacked).symm
  · rw [if_neg hany]
    simp only [Bool.or_eq_true, not_or] at hany
    obtain ⟨⟨⟨hread, hwrite⟩, hexec⟩, hshared⟩ := hany
    exact ⟨fun _ => ⟨hbacked, fun h => absurd h hread, fun h => absurd h hwrite,
      fun h => absurd h hexec, fun h => absurd h hshared⟩, fun _ => rfl⟩

/-! ## What is known of the address spaces -/

variable {Q : MmStruct → Prop} {ctx : LockCtx} {addr : U64} {nexts : ℕ → Next}

/-- The VMAs that there are after a step. -/
def Next.mm? : Next → Option MmStruct
  | locked mm => some mm
  | again mm => some mm
  | interrupted => none

/-- `Q` holds of the VMAs whenever they are looked at. -/
structure Views (Q : MmStruct → Prop) (ctx : LockCtx) (nexts : ℕ → Next) : Prop where
  locked : ∀ mm ∈ ctx.mmapLocked, Q mm
  nexts : ∀ i, ∀ mm ∈ (nexts i).mm?, Q mm

/-- A VMA cannot go away: it is locked, or all of them are. -/
def LockCtx.Holds (ctx : LockCtx) (vma : MapsVma) : Prop :=
  ctx.lockedVma = some vma ∨ ∃ mm ∈ ctx.mmapLocked, vma ∈ mm.vmas

/-- What is found is the first VMA that ends above the address, of those that there are then. -/
theorem queryVmaFindByAddr_cases (h : Views Q ctx nexts) (addr : U64) :
    (nexts 0 = .interrupted ∧ ∃ ctx', queryVmaFindByAddr ctx addr (nexts 0) = (none, ctx')) ∨
      ∃ mm ctx', Q mm ∧
        queryVmaFindByAddr ctx addr (nexts 0) = (some (mm.findVma addr), ctx') ∧
        Views Q ctx' (fun i => nexts (i + 1)) ∧
        ∀ vma, mm.findVma addr = some vma → ctx'.Holds vma := by
  have hrest : ∀ i, ∀ mm ∈ (nexts (i + 1)).mm?, Q mm := fun i => h.nexts (i + 1)
  have hmem {mm : MmStruct} {vma : MapsVma} (hfound : mm.findVma addr = some vma) :
      vma ∈ mm.vmas := (Cursor.mem_and_lt_of_above hfound).1
  obtain ⟨mmapLocked, lockedVma⟩ := ctx
  cases mmapLocked with
  | some mm =>
    exact .inr ⟨mm, ⟨some mm, lockedVma⟩, h.locked mm rfl, rfl, ⟨h.locked, hrest⟩,
      fun vma hfound => .inr ⟨mm, rfl, hmem hfound⟩⟩
  | none =>
    have hnow := h.nexts 0
    cases hnext : nexts 0 with
    | locked mm =>
      rw [hnext] at hnow
      exact .inr ⟨mm, ⟨none, mm.findVma addr⟩, hnow mm rfl, rfl, ⟨by simp, hrest⟩,
        fun vma hfound => .inl hfound⟩
    | again mm =>
      rw [hnext] at hnow
      have hheld : ∀ mm' ∈ some mm, Q mm' := by
        rintro mm' hmm'
        rw [← Option.some.inj hmm']
        exact hnow mm rfl
      exact .inr ⟨mm, ⟨some mm, none⟩, hnow mm rfl, rfl, ⟨hheld, hrest⟩,
        fun vma hfound => .inr ⟨mm, rfl, hmem hfound⟩⟩
    | interrupted => exact .inl ⟨rfl, _, rfl⟩

/-! ## What a query returns -/

variable (vmFile flags) in
/-- A VMA is what the query asks for. -/
def Wanted (addr : U64) (v : MapsVma) : Prop :=
  satisfies vmFile flags v = true ∧ addr.toNat < v.hi ∧
    (flags.coveringOrNextVma = true ∨ v.lo ≤ addr.toNat)

/-- The test of the loop, for a VMA that ends above the address. -/
theorem test_eq_true_iff {v : MapsVma} (h : addr.toNat < v.hi) :
    (satisfies vmFile flags v && (flags.coveringOrNextVma || v.vmStart ≤ addr)) = true ↔
      Wanted vmFile flags addr v := by
  have hle : v.vmStart ≤ addr ↔ v.lo ≤ addr.toNat := BitVec.le_def
  unfold Wanted
  rw [Bool.and_eq_true, Bool.or_eq_true, decide_eq_true_iff, hle]
  simp only [h, true_and]

variable (vmFile flags Q) in
/-- What holds of the answer: it is what is asked for, and held; and a VMA that is always there and
is what is asked for is not passed over. -/
structure AnswerOk (addr : U64) (answer : Answer) (ctx : LockCtx) : Prop where
  wanted : ∀ v, answer = .vma v →
    Wanted vmFile flags addr v ∧ (∃ mm, Q mm ∧ v ∈ mm.vmas) ∧ ctx.Holds v
  first : ∀ v, (∀ mm, Q mm → v ∈ mm.vmas) → Wanted vmFile flags addr v → answer ≠ .eintr →
    ∃ r, answer = .vma r ∧ (r = v ∨ r.hi ≤ v.lo)

/-- A round that goes on: what is asked for above the VMA is what is asked for. -/
theorem AnswerOk.behind {answer : Answer} {x : MapsVma} (hmany : flags.coveringOrNextVma = true)
    (hlt : addr.toNat < x.hi) (hx : ¬ Wanted vmFile flags addr x)
    (hcases : ∀ v, (∀ mm, Q mm → v ∈ mm.vmas) → addr.toNat < v.hi → x = v ∨ x.hi ≤ v.lo)
    (hne : ∀ v, (∀ mm, Q mm → v ∈ mm.vmas) → v.lo < v.hi)
    (h : AnswerOk vmFile flags Q x.vmEnd answer ctx) : AnswerOk vmFile flags Q addr answer ctx := by
  refine ⟨fun v hv => ?_, fun v hall hwanted hanswer => ?_⟩
  · obtain ⟨⟨hsat, habove, -⟩, hview⟩ := h.wanted v hv
    exact ⟨⟨hsat, hlt.trans habove, .inl hmany⟩, hview⟩
  · rcases hcases v hall hwanted.2.1 with rfl | hle
    · exact absurd hwanted hx
    · exact h.first v hall ⟨hwanted.1, hle.trans_lt (hne v hall), .inl hmany⟩ hanswer

variable (vmFile flags) in
/-- `query_matching_vma` returns, and what it returns is as it should be, whatever happens to the
VMAs on the way. -/
theorem answerOk_queryMatchingVma (h : Views Q ctx nexts) {rounds : ℕ}
    (hrounds : 2^64 ≤ addr.toNat + rounds) :
    ∃ answer ctx', queryMatchingVma vmFile flags rounds ctx addr nexts = (some answer, ctx') ∧
      (answer = .eintr → ∃ i, nexts i = .interrupted) ∧
      AnswerOk vmFile flags Q addr answer ctx' := by
  -- on the rounds: each begins at a higher address, with whatever VMAs there are then
  induction rounds generalizing ctx addr nexts with
  | zero => exact absurd addr.isLt (by omega)
  | succ rounds ih =>
    rcases queryVmaFindByAddr_cases h addr with
      ⟨hnext, ctx', hfind⟩ | ⟨mm, ctx', hQ, hfind, hviews, hholds⟩
    · rw [queryMatchingVma, hfind]
      exact ⟨.eintr, ctx', rfl, fun _ => ⟨0, hnext⟩, nofun, fun _ _ _ hanswer => absurd rfl hanswer⟩
    rw [queryMatchingVma, hfind]
    cases hfound : mm.findVma addr with
    | none =>
      -- no VMA ends above the address, and so none that is always there does
      refine ⟨.enoent, ctx', rfl, nofun, nofun, fun v hall hwanted _ => ?_⟩
      have hle := Cursor.above_eq_none.mp hfound v (hall mm hQ)
      exact absurd hwanted.2.1 (not_lt.mpr hle)
    | some x =>
      have hlt : addr.toNat < x.hi := (Cursor.mem_and_lt_of_above hfound).2
      have hcases : ∀ v, (∀ mm, Q mm → v ∈ mm.vmas) → addr.toNat < v.hi → x = v ∨ x.hi ≤ v.lo :=
        fun v hall hv => Cursor.eq_or_le_of_above mm.ordered (hall mm hQ) hfound hv
      dsimp only
      by_cases hx : Wanted vmFile flags addr x
      · rw [if_pos ((test_eq_true_iff hlt).mpr hx)]
        refine ⟨.vma x, ctx', rfl, nofun, fun v hv => ?_, fun v hall hwanted _ => ?_⟩
        · obtain rfl := Answer.vma.inj hv
          exact ⟨hx, ⟨mm, hQ, (Cursor.mem_and_lt_of_above hfound).1⟩, hholds x hfound⟩
        · exact ⟨x, rfl, hcases v hall hwanted.2.1⟩
      rw [if_neg (mt (test_eq_true_iff hlt).mp hx)]
      by_cases hmany : flags.coveringOrNextVma = true
      · rw [if_pos hmany]
        have hend : 2^64 ≤ x.vmEnd.toNat + rounds := by
          have hhi : x.vmEnd.toNat = x.hi := rfl
          omega
        obtain ⟨answer, ctx'', heq, hintr, hok⟩ := ih hviews hend
        refine ⟨answer, ctx'', heq, fun h => ?_, hok.behind hmany hlt hx hcases fun v hall =>
          mm.ordered.nonempty v (hall mm hQ)⟩
        obtain ⟨i, hi⟩ := hintr h
        exact ⟨i + 1, hi⟩
      · -- a VMA that has the address is the one that is found
        rw [if_neg hmany]
        refine ⟨.enoent, ctx', rfl, nofun, nofun, fun v hall hwanted _ => ?_⟩
        rcases hcases v hall hwanted.2.1 with rfl | hle
        · exact absurd hwanted hx
        · have hlo := hwanted.2.2.resolve_left hmany
          exact absurd (hlt.trans_le (hle.trans hlo)) (lt_irrefl _)

/-- Two finds with the file of the second VMA asked for, where the first VMA is unmapped between
them. -/
def demoNexts (i : ℕ) : Next := .locked (if i = 0 then MapsSeq.demoMm else MapsSeq.demoUnmapped)

/-- `answerOk_queryMatchingVma`, for that. -/
theorem answerOk_queryMatchingVma_demo :
    let vmFile (v : MapsVma) := v.vmStart == 0x3000
    let flags : QueryFlags := ⟨true, false, false, false, true, true⟩
    ∃ answer ctx', queryMatchingVma vmFile flags (2^64) (queryVmaSetup true MapsSeq.demoMm) 0x1000
        demoNexts = (some answer, ctx') ∧
      (answer = .eintr → ∃ i, demoNexts i = .interrupted) ∧
      AnswerOk vmFile flags (fun mm => mm = MapsSeq.demoMm ∨ mm = MapsSeq.demoUnmapped) 0x1000
        answer ctx' :=
  answerOk_queryMatchingVma _ _
    ⟨nofun, fun i mm h => by
      rw [← Option.some.inj h]
      split_ifs
      · exact .inl rfl
      · exact .inr rfl⟩
    (Nat.le_add_left _ _)

instance (addr : U64) (v : MapsVma) : Decidable (Wanted vmFile flags addr v) :=
  inferInstanceAs (Decidable (_ ∧ _ ∧ _))

/-! ## A query where nothing changes -/

variable {mm : MmStruct} {x : MapsVma}

/-- What is asked for ends above the address. -/
theorem find?_wanted_of_none (h : mm.findVma addr = none) :
    (mm.vmas.find? fun v => Wanted vmFile flags addr v) = none := by
  refine List.find?_eq_none.mpr fun v hv hwanted => ?_
  have hle := Cursor.above_eq_none.mp h v hv
  exact absurd (of_decide_eq_true hwanted).2.1 (not_lt.mpr hle)

/-- If the first VMA that ends above the address is what is asked for, it is the first that is. -/
theorem find?_wanted_of_wanted (h : mm.findVma addr = some x) (hx : Wanted vmFile flags addr x) :
    (mm.vmas.find? fun v => Wanted vmFile flags addr v) = some x := by
  obtain ⟨-, pre, post, hvmas, hpre⟩ := Cursor.above_eq_some_iff.mp h
  refine List.find?_eq_some_iff_append.mpr ⟨decide_eq_true hx, pre, post, hvmas, fun v hv => ?_⟩
  rw [Bool.not_eq_true', decide_eq_false_iff_not]
  exact fun hwanted => absurd hwanted.2.1 (not_lt.mpr (hpre v hv))

/-- If it is not, what is asked for begins behind it, which is enough only if the next VMA will do.
-/
theorem find?_wanted_of_not_wanted (h : mm.findVma addr = some x)
    (hx : ¬ Wanted vmFile flags addr x) :
    (mm.vmas.find? fun v => Wanted vmFile flags addr v) =
      if flags.coveringOrNextVma then mm.vmas.find? fun v => Wanted vmFile flags x.vmEnd v
      else none := by
  obtain ⟨hlt, -⟩ := Cursor.above_eq_some_iff.mp h
  have hend : x.vmEnd.toNat = x.hi := rfl
  -- a VMA that ends above the address is `x`, or begins behind it
  have hcases {v : MapsVma} (hv : v ∈ mm.vmas) (habove : addr.toNat < v.hi) :
      x = v ∨ x.hi ≤ v.lo :=
    Cursor.eq_or_le_of_above mm.ordered hv h habove
  by_cases hmany : flags.coveringOrNextVma = true
  · rw [if_pos hmany]
    refine List.find?_congr fun v hv => decide_eq_decide.mpr ⟨fun hwanted => ?_, fun hwanted => ?_⟩
    · rcases hcases hv hwanted.2.1 with rfl | hle
      · exact absurd hwanted hx
      · have hne : v.lo < v.hi := mm.ordered.nonempty v hv
        exact ⟨hwanted.1, hle.trans_lt hne, .inl hmany⟩
    · exact ⟨hwanted.1, hlt.trans hwanted.2.1, .inl hmany⟩
  · rw [if_neg hmany]
    refine List.find?_eq_none.mpr fun v hv hdecide => ?_
    have hwanted := of_decide_eq_true hdecide
    rcases hcases hv hwanted.2.1 with rfl | hle
    · exact hx hwanted
    · have hlo := hwanted.2.2.resolve_left hmany
      exact absurd (hlt.trans_le (hle.trans hlo)) (lt_irrefl _)

/-- The loop, from any round on, of a query that is not interrupted. -/
theorem queryMatchingVma_of_views (h : Views (· = mm) ctx nexts)
    (hnot : ∀ i, nexts i ≠ .interrupted) {rounds : ℕ} (hrounds : 2^64 ≤ addr.toNat + rounds) :
    (queryMatchingVma vmFile flags rounds ctx addr nexts).1 =
      some ((mm.vmas.find? fun v => Wanted vmFile flags addr v).elim .enoent .vma) := by
  -- on the rounds: each begins at the end of a VMA that is not what is asked for
  induction rounds generalizing ctx addr nexts with
  | zero => exact absurd addr.isLt (by omega)
  | succ rounds ih =>
    rcases queryVmaFindByAddr_cases h addr with
      ⟨hnext, -⟩ | ⟨mm', ctx', rfl, hfind, hviews, -⟩
    · exact absurd hnext (hnot 0)
    rw [queryMatchingVma, hfind]
    cases hfound : mm'.findVma addr with
    | none =>
      rw [find?_wanted_of_none hfound]
      rfl
    | some x =>
      have hlt : addr.toNat < x.hi := (Cursor.mem_and_lt_of_above hfound).2
      dsimp only
      by_cases hx : Wanted vmFile flags addr x
      · rw [if_pos ((test_eq_true_iff hlt).mpr hx), find?_wanted_of_wanted hfound hx]
        rfl
      rw [if_neg (mt (test_eq_true_iff hlt).mp hx), find?_wanted_of_not_wanted hfound hx]
      by_cases hmany : flags.coveringOrNextVma = true
      · rw [if_pos hmany, if_pos hmany]
        have hend : x.vmEnd.toNat = x.hi := rfl
        exact ih hviews (fun i => hnot (i + 1)) (by omega)
      · rw [if_neg hmany, if_neg hmany]
        rfl

/-- Where nothing changes and nothing interrupts it, the answer is the first of the VMAs that are
what is asked for, and `-ENOENT` exactly if there is none. `again` says which of the lookups fall
back to the mmap lock. -/
theorem queryMatchingVma_eq (vmFile : MapsVma → Bool) (flags : QueryFlags) (perVmaLock : Bool)
    (mm : MmStruct) (addr : U64) (again : ℕ → Bool) :
    (queryMatchingVma vmFile flags (2^64 - addr.toNat) (queryVmaSetup perVmaLock mm) addr
        fun i => if again i then .again mm else .locked mm).1 =
      some ((mm.vmas.find? fun v => Wanted vmFile flags addr v).elim .enoent .vma) := by
  have hmm (i : ℕ) : (if again i then Next.again mm else .locked mm).mm? = some mm := by
    cases again i <;> rfl
  have hstart : ∀ mm' ∈ (queryVmaSetup perVmaLock mm).mmapLocked, mm' = mm := by
    cases perVmaLock with
    | true => exact nofun
    | false => exact fun mm' h => (Option.some.inj h).symm
  refine queryMatchingVma_of_views ⟨hstart, fun i mm' h => ?_⟩ (fun i h => ?_) (by omega)
  · rw [hmm i] at h
    exact (Option.some.inj h).symm
  · have hnone := hmm i
    rw [h] at hnone
    exact absurd hnone nofun

end KernelPortfolio.ProcmapQuery
