import KernelPortfolio.User.Pagemap

/-!
# What the readers of the pagemap agree on

The four programs read the entry at the same place of the file and take the same page frame number
from it. `pagemapReaders_agree_iff` says for which entries they print the same physical page, or
none: two of them do not look at the present bit. A zero of `get_pfn` stands for a failed read, for
a page that is not present and for a hidden number, and `getPfn_callers_right_iff` says when the
callers take it for what it is.
-/

namespace KernelPortfolio

open BitField (field)

variable {α : Type}

/-! ## What a program reads and prints -/

/-- The field of a pagemap entry with the page frame number. -/
def pfnField (e : U64) : U64 := e &&& field 64 0 55

/-- What a program reads and prints: the offsets in the pagemap that it reads at, the page frame
numbers, and the physical addresses. -/
structure Reading where
  offsets : List U64
  pfns : List U64
  phys : List ℕ
  deriving DecidableEq, Repr

/-- What a program reads and prints, for the numbers in its lines. -/
def Reading.of (pfns : α → List U64) (phys : α → List ℕ) (t : List (UserEvent α)) : Reading where
  offsets := readOffsets t
  pfns := (printed t).flatMap pfns
  phys := (printed t).flatMap phys

/-- The page frame numbers in a line of `malloc_user`, after the write. -/
def MallocUser.Line.pfns : Line → List U64
  | pfnAfter pfn => [pfn]
  | summary _ _ after => [after]
  | _ => []

/-- The physical addresses in a line of `malloc_user`. One of them is printed as the page frame
number followed by three zeros. -/
def MallocUser.Line.physAddrs : Line → List ℕ
  | physPage pfn => [pfn.toNat * 4096]
  | physBytes n => [n.toNat]
  | phys addr => [addr.toNat]
  | _ => []

/-- The page frame numbers in a line of `dirty_trace_v2`. -/
def DirtyTraceV2.Line.pfns : Line → List U64
  | pfn n => [n]
  | structPage n _ => [n]
  | _ => []

/-- The physical addresses in a line of `dirty_trace_v2`. -/
def DirtyTraceV2.Line.physAddrs : Line → List ℕ
  | phys addr => [addr.toNat]
  | _ => []

/-- The page frame numbers in a line of the visualizer. -/
def PageWalkVisualizer.Line.pfns : Line → List U64
  | entry _ _ _ pfn => [pfn]
  | calculation pfn _ => [pfn]
  | tlb _ pfn => [pfn]
  | _ => []

/-- The physical addresses in a line of the visualizer. -/
def PageWalkVisualizer.Line.physAddrs : Line → List ℕ
  | calculation _ phys => [phys.toNat]
  | physical _ phys => [phys.toNat]
  | translation _ phys => [phys.toNat]
  | _ => []

/-- The page frame numbers in a line of `mm_exercise_user`. -/
def MmExerciseUser.Line.pfns : Line → List U64
  | pfn n => [n]
  | finished n => [n]
  | _ => []

/-- The physical addresses in a line of `mm_exercise_user`. -/
def MmExerciseUser.Line.physAddrs : Line → List ℕ
  | phys addr => [addr.toNat]
  | _ => []

/-- What the programs see besides the entry: their process, the counters that they print, the
pagemap before the write, and the outcome of the ioctl. -/
structure UserEnv where
  pid : CInt
  rss : ℕ → U64
  nrDirty : ℕ → U64
  before : Pagemap
  dev : Option Bool

/-- What the four programs read and print for an address with an entry. -/
def readings (env : UserEnv) (vaddr entry : U64) : List Reading :=
  let pm := Pagemap.holding entry
  [.of MallocUser.Line.pfns MallocUser.Line.physAddrs
      (MallocUser.main env.pid env.rss (some vaddr) env.before pm).1,
    .of DirtyTraceV2.Line.pfns DirtyTraceV2.Line.physAddrs
      (DirtyTraceV2.main env.nrDirty true (some vaddr) pm).1,
    .of PageWalkVisualizer.Line.pfns PageWalkVisualizer.Line.physAddrs
      (PageWalkVisualizer.showPageWalk pm vaddr),
    .of MmExerciseUser.Line.pfns MmExerciseUser.Line.physAddrs
      (MmExerciseUser.main env.pid (some vaddr) true pm env.dev).1]

/-- The readers agree on an address and its entry. They read the entry at its place in the file. If
the present bit is set and the field of the page frame number is not zero, they print that number
and addresses in that page. If the present bit is not set, they print no physical address. -/
structure ReadersAgree (env : UserEnv) (vaddr entry : U64) : Prop where
  offset : ∀ r ∈ readings env vaddr entry,
    r.offsets ≠ [] ∧ ∀ o ∈ r.offsets, o.toNat = 8 * (vaddr.toNat / 4096)
  pfn : entry.getLsbD 63 = true → pfnField entry ≠ 0 → ∀ r ∈ readings env vaddr entry,
    r.pfns ≠ [] ∧ ∀ p ∈ r.pfns, p = pfnField entry
  phys : entry.getLsbD 63 = true → pfnField entry ≠ 0 → ∀ r ∈ readings env vaddr entry,
    r.phys ≠ [] ∧ ∀ n ∈ r.phys, n / 4096 = (pfnField entry).toNat
  absent : entry.getLsbD 63 = false → ∀ r ∈ readings env vaddr entry, r.phys = []

/-! ## The place of an entry, and its fields -/

/-- The place of an address's entry in the file. -/
def entryOffset (vaddr : U64) : U64 := (vaddr >>> 12) * 8

/-- The place is eight times the number of the page. -/
theorem toNat_entryOffset (vaddr : U64) :
    (entryOffset vaddr).toNat = 8 * (vaddr.toNat / 4096) := by
  have hlt := vaddr.isLt
  have height : (8 : U64).toNat = 8 := rfl
  unfold entryOffset
  rw [BitVec.toNat_mul, BitVec.toNat_ushiftRight, Nat.shiftRight_eq_div_pow, height]
  omega

/-- The place, as `dirty_trace_v2` computes it. -/
theorem div_mul_eq_entryOffset (vaddr : U64) : vaddr / 4096 * 8 = entryOffset vaddr := by
  have hdiv : vaddr / (4096 : U64) = vaddr >>> 12 := by
    rw [← BitVec.toNat_inj, BitVec.toNat_udiv, BitVec.toNat_ushiftRight, Nat.shiftRight_eq_div_pow]
    rfl
  rw [hdiv, entryOffset]

/-- The place, as `mm_exercise_user` computes it. -/
theorem shiftLeft_eq_entryOffset (vaddr : U64) : vaddr >>> 12 <<< 3 = entryOffset vaddr := by
  unfold entryOffset
  rw [← BitVec.toNat_inj, BitVec.toNat_mul, BitVec.toNat_shiftLeft, Nat.shiftLeft_eq]
  rfl

/-- The test of the present bit by a shift. -/
theorem shiftRight_63_and_one (e : U64) : (e >>> 63) &&& 1 = 0 ↔ e.getLsbD 63 = false := by
  rw [BitField.and_one_eq_zero_iff, BitVec.getLsbD_ushiftRight]

/-- The test of the present bit by a mask. -/
theorem and_one_shiftLeft_63 (e : U64) : e &&& (1 <<< 63) = 0 ↔ e.getLsbD 63 = false := by
  have hmask : (1 <<< 63 : U64) = BitVec.twoPow 64 63 := by decide
  rw [hmask, BitField.and_twoPow_eq_zero_iff e (by decide)]

/-- The page frame number of a page that is present, and zero for one that is not. -/
def presentPfn (e : U64) : U64 := if e.getLsbD 63 then pfnField e else 0

/-- `get_pfn` of `malloc_user`, when nothing fails. -/
theorem mallocUser_getPfn_holding (entry vaddr : U64) :
    MallocUser.getPfn (.holding entry) vaddr =
      ([.readAt (entryOffset vaddr)], presentPfn entry) := by
  have hmask : entry &&& 0x7FFFFFFFFFFFFF = pfnField entry := rfl
  simp only [MallocUser.getPfn, Pagemap.holding, ne_eq, shiftRight_63_and_one, hmask, presentPfn,
    Bool.not_true, Bool.false_eq_true, if_false, Bool.not_eq_false]
  rfl

/-- `get_pfn` of `dirty_trace_v2`, when nothing fails. -/
theorem dirtyTraceV2_getPfn_holding (entry vaddr : U64) :
    DirtyTraceV2.getPfn (.holding entry) vaddr =
      (.readAt (entryOffset vaddr) ::
        if entry.getLsbD 63 then [] else [.say .pageNotPresent], presentPfn entry) := by
  have hmask : entry &&& ((1 <<< 55) - 1) = pfnField entry := rfl
  simp only [DirtyTraceV2.getPfn, Pagemap.holding, and_one_shiftLeft_63, hmask, presentPfn,
    div_mul_eq_entryOffset, Bool.not_true, Bool.false_eq_true, if_false]
  cases entry.getLsbD 63 <;> rfl

/-! ## What each program reads and prints -/

/-- Whatever the pagemap holds, `get_pfn` of `malloc_user` reads at the place of the entry only, and
prints nothing but errors. -/
theorem mallocUser_getPfn (pm : Pagemap) (vaddr : U64) :
    (∀ o ∈ readOffsets (MallocUser.getPfn pm vaddr).1, o = entryOffset vaddr) ∧
      ∀ line ∈ printed (MallocUser.getPfn pm vaddr).1, ∃ s, line = .perror s := by
  simp only [MallocUser.getPfn, ← entryOffset.eq_1]
  split_ifs
  · simp
  · simp
  · cases pm.read (entryOffset vaddr) <;> simp

section

variable (env : UserEnv) (vaddr entry : U64)

/-- `malloc_user`, which may read the entry before the write as well. -/
theorem reading_mallocUser :
    ∃ offs, (∀ o ∈ offs, o = entryOffset vaddr) ∧
      Reading.of MallocUser.Line.pfns MallocUser.Line.physAddrs
        (MallocUser.main env.pid env.rss (some vaddr) env.before (.holding entry)).1 =
      ⟨offs ++ [entryOffset vaddr], [presentPfn entry, presentPfn entry],
        if presentPfn entry = 0 then [] else
          [(presentPfn entry).toNat * 4096, (presentPfn entry * 4096).toNat,
            (presentPfn entry * 4096).toNat]⟩ := by
  obtain ⟨hoff, hlines⟩ := mallocUser_getPfn env.before vaddr
  have hpfns : (printed (MallocUser.getPfn env.before vaddr).1).flatMap MallocUser.Line.pfns = [] :=
    List.flatMap_eq_nil_iff.mpr fun line h => by
      obtain ⟨s, rfl⟩ := hlines line h
      rfl
  have hphys :
      (printed (MallocUser.getPfn env.before vaddr).1).flatMap MallocUser.Line.physAddrs = [] :=
    List.flatMap_eq_nil_iff.mpr fun line h => by
      obtain ⟨s, rfl⟩ := hlines line h
      rfl
  clear hlines
  -- of the read before the write, only the offsets are left
  refine ⟨_, hoff, ?_⟩
  simp only [MallocUser.main, mallocUser_getPfn_holding, Reading.of, readOffsets_append,
    printed_append, readOffsets_say, printed_say, readOffsets_readAt, printed_readAt,
    readOffsets_nil, printed_nil, List.flatMap_append, List.flatMap_cons, hpfns, hphys]
  split_ifs <;> simp_all [MallocUser.Line.pfns, MallocUser.Line.physAddrs]

/-- `dirty_trace_v2`. -/
theorem reading_dirtyTraceV2 :
    Reading.of DirtyTraceV2.Line.pfns DirtyTraceV2.Line.physAddrs
      (DirtyTraceV2.main env.nrDirty true (some vaddr) (.holding entry)).1 =
    ⟨[entryOffset vaddr], [presentPfn entry, presentPfn entry],
      [(presentPfn entry * 4096).toNat]⟩ := by
  simp only [DirtyTraceV2.main, dirtyTraceV2_getPfn_holding, Reading.of]
  cases entry.getLsbD 63 <;> rfl

/-- The visualizer. -/
theorem reading_showPageWalk :
    Reading.of PageWalkVisualizer.Line.pfns PageWalkVisualizer.Line.physAddrs
      (PageWalkVisualizer.showPageWalk (.holding entry) vaddr) =
    if entry.getLsbD 63 = true ∧ pfnField entry ≠ 0 then
      ⟨[entryOffset vaddr], [pfnField entry, pfnField entry, pfnField entry],
        [(pfnField entry <<< 12).toNat, (pfnField entry <<< 12 ||| (vaddr &&& 0xFFF)).toNat,
          (pfnField entry <<< 12 ||| (vaddr &&& 0xFFF)).toNat]⟩
    else ⟨[entryOffset vaddr], [pfnField entry], []⟩ := by
  have hmask : entry &&& ((1 <<< 55) - 1) = pfnField entry := rfl
  have hpos : ∀ x : U64, x > 0 ↔ x ≠ 0 := by
    intro x
    rw [gt_iff_lt, BitVec.lt_def, ne_eq, ← BitVec.toNat_inj]
    exact Nat.pos_iff_ne_zero
  simp only [PageWalkVisualizer.showPageWalk, Pagemap.holding, hmask, hpos, Bool.and_eq_true,
    bne_iff_ne, ne_eq, shiftRight_63_and_one, Bool.not_eq_false, decide_eq_true_eq, Bool.not_true,
    Bool.false_eq_true, if_false]
  split_ifs <;> rfl

/-- `mm_exercise_user`. -/
theorem reading_mmExerciseUser :
    Reading.of MmExerciseUser.Line.pfns MmExerciseUser.Line.physAddrs
      (MmExerciseUser.main env.pid (some vaddr) true (.holding entry) env.dev).1 =
    ⟨[entryOffset vaddr], [pfnField entry, pfnField entry],
      [(pfnField entry <<< 12).toNat]⟩ := by
  have hmask : entry &&& MmExerciseUser.myPfnMask = pfnField entry := rfl
  simp only [MmExerciseUser.main, Pagemap.holding, hmask, shiftLeft_eq_entryOffset, Reading.of]
  cases env.dev with
  | none => rfl
  | some ok => cases ok <;> rfl

end

/-! ## Agreement -/

/-- The page of an address that is a page frame number with an offset. -/
theorem page_of_phys {x off : U64} (hx : x.toNat < 2^52) (hoff : off.toNat < 2^12) :
    (x * 4096).toNat / 4096 = x.toNat ∧ (x <<< 12).toNat / 4096 = x.toNat ∧
      (x <<< 12 ||| off).toNat / 4096 = x.toNat := by
  have hmul : (x * 4096).toNat = x.toNat * 4096 := by
    rw [BitVec.toNat_mul]
    exact Nat.mod_eq_of_lt (by show x.toNat * 4096 < 2^64; omega)
  have hshift : (x <<< 12).toNat = 2^12 * x.toNat := by
    rw [BitVec.toNat_shiftLeft, Nat.shiftLeft_eq, Nat.mod_eq_of_lt (by omega), Nat.mul_comm]
  have hor : (x <<< 12 ||| off).toNat = 2^12 * x.toNat + off.toNat := by
    rw [BitVec.toNat_or, hshift, Nat.two_pow_add_eq_or_of_lt hoff]
  refine ⟨?_, ?_, ?_⟩ <;> omega

/-- What the four programs read and print. -/
theorem readings_eq (env : UserEnv) (vaddr entry : U64) :
    ∃ offs, (∀ o ∈ offs, o = entryOffset vaddr) ∧ readings env vaddr entry =
      [⟨offs ++ [entryOffset vaddr], [presentPfn entry, presentPfn entry],
          if presentPfn entry = 0 then [] else
            [(presentPfn entry).toNat * 4096, (presentPfn entry * 4096).toNat,
              (presentPfn entry * 4096).toNat]⟩,
        ⟨[entryOffset vaddr], [presentPfn entry, presentPfn entry],
          [(presentPfn entry * 4096).toNat]⟩,
        if entry.getLsbD 63 = true ∧ pfnField entry ≠ 0 then
          ⟨[entryOffset vaddr], [pfnField entry, pfnField entry, pfnField entry],
            [(pfnField entry <<< 12).toNat, (pfnField entry <<< 12 ||| (vaddr &&& 0xFFF)).toNat,
              (pfnField entry <<< 12 ||| (vaddr &&& 0xFFF)).toNat]⟩
        else ⟨[entryOffset vaddr], [pfnField entry], []⟩,
        ⟨[entryOffset vaddr], [pfnField entry, pfnField entry],
          [(pfnField entry <<< 12).toNat]⟩] := by
  obtain ⟨offs, hoffs, hmalloc⟩ := reading_mallocUser env vaddr entry
  refine ⟨offs, hoffs, ?_⟩
  simp only [readings]
  rw [hmalloc, reading_dirtyTraceV2, reading_showPageWalk, reading_mmExerciseUser]

/-- All four programs read at the place of the entry, whatever it holds. -/
theorem readings_offsets (env : UserEnv) (vaddr entry : U64) :
    ∀ r ∈ readings env vaddr entry,
      r.offsets ≠ [] ∧ ∀ o ∈ r.offsets, o.toNat = 8 * (vaddr.toNat / 4096) := by
  obtain ⟨offs, hoffs, hreadings⟩ := readings_eq env vaddr entry
  have hplace := toNat_entryOffset vaddr
  have hoffs' : ∀ o ∈ offs, o.toNat = 8 * (vaddr.toNat / 4096) := by
    intro o ho
    rw [hoffs o ho, hplace]
  rw [hreadings]
  split_ifs <;> simpa [or_imp, forall_and, hplace] using hoffs'

/-- Whatever the programs see besides, they agree on an address and its entry exactly when the
present bit is set, and the page frame number leaves room for the offset in 64 bits. -/
theorem pagemapReaders_agree_iff (env : UserEnv) (vaddr entry : U64) :
    ReadersAgree env vaddr entry ↔
      entry.getLsbD 63 = true ∧ (pfnField entry).toNat < 2^52 := by
  obtain ⟨offs, -, hreadings⟩ := readings_eq env vaddr entry
  constructor
  · intro h
    have hpresent : entry.getLsbD 63 = true := by
      -- two of the programs print an address for every entry
      by_contra hclear
      have habsent := h.absent (Bool.not_eq_true _ ▸ hclear)
      rw [hreadings] at habsent
      simp at habsent
    refine ⟨hpresent, ?_⟩
    by_contra hlarge
    have hne : pfnField entry ≠ 0 := by
      intro hzero
      rw [hzero] at hlarge
      exact hlarge (by decide)
    -- a product of 64 bits is below the page
    have hphys := h.phys hpresent hne
    rw [hreadings] at hphys
    simp only [List.forall_mem_cons] at hphys
    have hpage := hphys.2.1.2.1
    rw [presentPfn, if_pos hpresent] at hpage
    have hlt := (pfnField entry * 4096).isLt
    omega
  · rintro ⟨hpresent, hlt⟩
    have hoff : (vaddr &&& 0xFFF).toNat < 2^12 := by
      rw [show (0xFFF : U64) = field 64 0 12 by decide]
      exact BitField.and_field_lt vaddr (by decide)
    obtain ⟨hmul, hshift, hor⟩ := page_of_phys hlt hoff
    have hpfn : presentPfn entry = pfnField entry := if_pos hpresent
    refine ⟨readings_offsets env vaddr entry, fun _ hne => ?_, fun _ hne => ?_, fun hclear => ?_⟩
    · rw [hreadings, hpfn, if_neg hne, if_pos ⟨hpresent, hne⟩]
      simp
    · rw [hreadings, hpfn, if_neg hne, if_pos ⟨hpresent, hne⟩]
      simp only [List.forall_mem_cons, List.not_mem_nil, false_imp_iff, implies_true, and_true,
        ne_eq, reduceCtorEq, not_false_eq_true, true_and, hmul, hshift, hor]
      exact Nat.mul_div_cancel _ (by decide)
    · rw [hpresent] at hclear
      exact absurd hclear (by decide)

/-- A process, and a pagemap without pages before the write. -/
def UserEnv.sample : UserEnv := ⟨7, fun _ => 0, fun _ => 0, .holding 0, none⟩

/-- For an entry of a page in swap, `dirty_trace_v2` prints the physical address 0 and
`mm_exercise_user` one made of the place in swap. -/
theorem pagemapReaders_not_agree : ¬ ReadersAgree .sample 0x1000 0x4000000000000505 := by
  intro h
  have habsent := h.absent (by decide) ⟨[8], [0x505, 0x505], [0x505000]⟩ (by decide)
  exact absurd habsent (by decide)

/-! ## The zero of `get_pfn` -/

/-- The entry that `get_pfn` of `malloc_user` reads, if it reads one. -/
def MallocUser.entryRead (pm : Pagemap) (vaddr : U64) : Option U64 :=
  if pm.opens && pm.seeks then pm.read (entryOffset vaddr) else none

/-- The entry that `get_pfn` of `dirty_trace_v2` reads, if it reads one. -/
def DirtyTraceV2.entryRead (pm : Pagemap) (vaddr : U64) : Option U64 :=
  if pm.opens then pm.read (entryOffset vaddr) else none

/-- `get_pfn` of `malloc_user` returns zero when it reads no entry. -/
theorem mallocUser_getPfn_snd (pm : Pagemap) (vaddr : U64) :
    (MallocUser.getPfn pm vaddr).2 = ((MallocUser.entryRead pm vaddr).map presentPfn).getD 0 := by
  obtain ⟨opens, seeks, read⟩ := pm
  have hmask : ∀ e : U64, e &&& 0x7FFFFFFFFFFFFF = pfnField e := fun _ => rfl
  simp only [MallocUser.getPfn, MallocUser.entryRead, ← entryOffset.eq_1, hmask, ne_eq,
    shiftRight_63_and_one, Bool.not_eq_false]
  cases opens <;> cases seeks <;> try rfl
  cases read (entryOffset vaddr) <;> rfl

/-- `malloc_user` says before the write that the page is not present exactly when `get_pfn` returns
zero. -/
theorem notPresent_mem_main (pid : CInt) (rss : ℕ → U64) (ptr : Option U64)
    (before after : Pagemap) :
    .say .notPresent ∈ (MallocUser.main pid rss ptr before after).1 ↔
      ∃ vaddr ∈ ptr, (MallocUser.getPfn before vaddr).2 = 0 := by
  cases ptr with
  | none => simp [MallocUser.main]
  | some vaddr =>
    have hgetPfn : ∀ pm, .say .notPresent ∉ (MallocUser.getPfn pm vaddr).1 := by
      intro pm h
      obtain ⟨s, hs⟩ := (mallocUser_getPfn pm vaddr).2 _ (mem_printed.mpr h)
      cases hs
    simp only [MallocUser.main]
    split_ifs with hbefore <;> simpa [hgetPfn] using hbefore

/-- `malloc_user` is right that the page is not present: it says so only of an entry that it read,
and whose present bit is clear. -/
def MallocUser.NotPresentRight (ptr : Option U64) (before : Pagemap) (t : List (UserEvent Line)) :
    Prop :=
  .say .notPresent ∈ t → ∃ vaddr ∈ ptr, ∃ e ∈ entryRead before vaddr, e.getLsbD 63 = false

/-- A line with the page frame number, or what is derived from it. -/
def DirtyTraceV2.Line.usesPfn : Line → Bool
  | pfn _ => true
  | phys _ => true
  | zone _ => true
  | structPage _ _ => true
  | _ => false

/-- `dirty_trace_v2` is right about the page, which is in the frame `frame`: it prints what it
derives from a page frame number only if it read an entry with the present bit and that number. -/
def DirtyTraceV2.PfnRight (frame : U64) (map : Option U64) (pm : Pagemap)
    (t : List (UserEvent Line)) : Prop :=
  ∀ line ∈ printed t, line.usesPfn = true →
    ∃ vaddr ∈ map, ∃ e ∈ entryRead pm vaddr, e.getLsbD 63 = true ∧ pfnField e = frame

/-- `malloc_user` is right exactly when `malloc` fails, or it reads an entry whose present bit is
clear or whose page frame number is not zero. -/
theorem mallocUser_notPresentRight_iff (pid : CInt) (rss : ℕ → U64) (ptr : Option U64)
    (before after : Pagemap) :
    MallocUser.NotPresentRight ptr before (MallocUser.main pid rss ptr before after).1 ↔
      ∀ vaddr ∈ ptr, ∃ e ∈ MallocUser.entryRead before vaddr,
        e.getLsbD 63 = false ∨ pfnField e ≠ 0 := by
  unfold MallocUser.NotPresentRight
  rw [notPresent_mem_main]
  cases ptr with
  | none => simp
  | some vaddr =>
    simp only [Option.mem_def, Option.some.injEq, exists_eq_left', forall_eq',
      mallocUser_getPfn_snd]
    cases MallocUser.entryRead before vaddr with
    | none => simp
    | some e =>
      simp only [Option.map_some, Option.getD_some, Option.some.injEq, exists_eq_left', presentPfn]
      cases e.getLsbD 63 <;> simp

/-- `dirty_trace_v2` is right exactly when it gets no mapping, or it reads an entry of a present
page with its frame. -/
theorem dirtyTraceV2_pfnRight_iff (nrDirty : ℕ → U64) (opens : Bool) (map : Option U64)
    (pm : Pagemap) (frame : U64) :
    DirtyTraceV2.PfnRight frame map pm (DirtyTraceV2.main nrDirty opens map pm).1 ↔
      (opens = true → ∀ vaddr ∈ map, ∃ e ∈ DirtyTraceV2.entryRead pm vaddr,
        e.getLsbD 63 = true ∧ pfnField e = frame) := by
  unfold DirtyTraceV2.PfnRight
  cases opens with
  | false => simp [DirtyTraceV2.main, DirtyTraceV2.Line.usesPfn]
  | true =>
    cases map with
    | none => simp [DirtyTraceV2.main, DirtyTraceV2.Line.usesPfn]
    | some vaddr =>
      simp only [Option.mem_def, Option.some.injEq, exists_eq_left', forall_eq', forall_true_left]
      constructor
      · -- the line of the page frame number is printed in any case
        intro h
        refine h (.pfn (DirtyTraceV2.getPfn pm vaddr).2) ?_ rfl
        simp [DirtyTraceV2.main]
      · exact fun h _ _ _ => h

/-- Whatever open, seek and read return: `malloc_user` is right exactly when `get_pfn` does not
return zero for a failure or for a present page with a hidden frame, and `dirty_trace_v2` exactly
when `get_pfn` returns the frame of the page. -/
theorem getPfn_callers_right_iff (pid : CInt) (rss nrDirty : ℕ → U64) (ptr map : Option U64)
    (before after pm : Pagemap) (opens : Bool) (frame : U64) :
    (MallocUser.NotPresentRight ptr before (MallocUser.main pid rss ptr before after).1 ↔
      ∀ vaddr ∈ ptr, ∃ e ∈ MallocUser.entryRead before vaddr,
        e.getLsbD 63 = false ∨ pfnField e ≠ 0) ∧
    (DirtyTraceV2.PfnRight frame map pm (DirtyTraceV2.main nrDirty opens map pm).1 ↔
      (opens = true → ∀ vaddr ∈ map, ∃ e ∈ DirtyTraceV2.entryRead pm vaddr,
        e.getLsbD 63 = true ∧ pfnField e = frame)) :=
  ⟨mallocUser_notPresentRight_iff pid rss ptr before after,
    dirtyTraceV2_pfnRight_iff nrDirty opens map pm frame⟩

/-- They are not right when the pagemap does not open, nor when it hides the frame of a present
page. -/
theorem getPfn_callers_not_right :
    ¬ MallocUser.NotPresentRight (some 0x1000) ⟨false, true, fun _ => none⟩
      (MallocUser.main 7 (fun _ => 0) (some 0x1000) ⟨false, true, fun _ => none⟩ (.holding 0)).1 ∧
    ¬ MallocUser.NotPresentRight (some 0x1000) (.holding 0x8000000000000000)
      (MallocUser.main 7 (fun _ => 0) (some 0x1000) (.holding 0x8000000000000000) (.holding 0)).1 ∧
    ¬ DirtyTraceV2.PfnRight 0x12345 (some 0x1000) (.holding 0x8000000000000000)
      (DirtyTraceV2.main (fun _ => 0) true (some 0x1000) (.holding 0x8000000000000000)).1 := by
  refine ⟨fun h => ?_, fun h => ?_, fun h => ?_⟩
  · obtain ⟨_, ⟨⟩, e, he, -⟩ := h (by decide)
    cases he
  · obtain ⟨_, ⟨⟩, _, ⟨⟩, hclear⟩ := h (by decide)
    exact absurd hclear (by decide)
  · obtain ⟨_, ⟨⟩, _, ⟨⟩, -, hframe⟩ := h (.pfn 0) (by decide) rfl
    exact absurd hframe (by decide)

end KernelPortfolio
