import KernelPortfolio.Lib.Align
import KernelPortfolio.Machine

/-!
# The mappings of `mapping_user.c`

`mapping_field_decode/mapping_user.c` maps a file page, three anonymous pages and 4MB, and writes
through a pointer into each. What it does is a list of `Event`s, up to the store that kills it, if
one does. The calls' results are the fields of `Env`.

What it writes through the four pointers to pages is in the mapping of the pointer
(`inside_of_ne_thpPtr`). The pointer into the 4MB is rounded up to 2MB, which stays inside
(`Mmap.alignedAddr_inside`), but the program does not look whether that mapping exists:
`thpInside_iff` says when it writes inside it or not at all.
-/

namespace KernelPortfolio.MappingUser

open Align (alignUp)

/-- `PAGE_SIZE`. -/
def pageSize : ℕ := 4096

/-- `MAP_FAILED`. -/
def mapFailed : U64 := -1

/-- What `mmap` returns for `len` bytes: `MAP_FAILED`, or the address of a page from which on the
bytes do not wrap. -/
inductive Mmap (len : ℕ) where
  | failed
  | mapped (addr : U64) (aligned : 4096 ∣ addr.toNat) (fits : addr.toNat + len ≤ 2^64)

variable {len : ℕ}

/-- The pointer that `mmap` returns. -/
def Mmap.ptr : Mmap len → U64
  | failed => mapFailed
  | mapped addr _ _ => addr

/-- There is a mapping. -/
def Mmap.succeeded : Mmap len → Bool
  | failed => false
  | mapped _ _ _ => true

/-- The addresses of the mapping. -/
def Mmap.range : Mmap len → Set ℕ
  | failed => ∅
  | mapped addr _ _ => Set.Ico addr.toNat (addr.toNat + len)

/-- The results of the calls, and the addresses at which a store kills the program. -/
structure Env where
  pid : CInt
  fd : CInt
  file : Mmap pageSize
  anon : Mmap pageSize
  ksm1 : Mmap pageSize
  ksm2 : Mmap pageSize
  ksmAdvice1 : CInt
  ksmAdvice2 : CInt
  thp : Mmap (2^22)
  thpAdvice : CInt
  kills : U64 → Bool

/-- The pointers that the program writes through. -/
inductive Var where
  | filePtr
  | anonPtr
  | ksmPtr1
  | ksmPtr2
  | thpPtr
  deriving DecidableEq, Repr

/-- The lines that the program prints. -/
inductive Line where
  | perror (s : String)
  | title
  | pid (pid : CInt)
  | file (ptr : U64)
  | anon (ptr : U64)
  | ksm (ptr1 ptr2 : U64)
  | ready (pid : CInt) (file anon ksm1 : U64)
  | huge (pid : CInt) (raw ptr tail : U64)
  | pressEnter
  deriving DecidableEq, Repr

/-- What the program does. -/
inductive Event where
  | say (line : Line)
  /-- It opens a file to read and write, empty or new. -/
  | openFile (path : String)
  /-- It writes `n` equal bytes to a file. -/
  | write (fd : CInt) (byte : BitVec 8) (n : ℕ)
  /-- It has memory mapped to read and write, where the kernel likes. -/
  | mmap (len : ℕ) (flags : ℕ) (fd : CInt)
  | store (v : Var) (addr : U64) (byte : BitVec 8)
  | memset (v : Var) (addr : U64) (byte : BitVec 8) (n : ℕ)
  | madvise (addr : U64) (len : ℕ) (advice : ℕ)
  | sleep (seconds : ℕ)
  | getchar
  | munmap (addr : U64) (len : ℕ)
  | close (fd : CInt)
  | unlink (path : String)
  | ret (status : ℕ)
  deriving DecidableEq, Repr

/-! ## The program -/

/-- `MAP_SHARED`. -/
def mapShared : ℕ := 0x01

/-- `MAP_PRIVATE | MAP_ANONYMOUS`. -/
def mapPrivateAnonymous : ℕ := 0x02 ||| 0x20

/-- `MADV_MERGEABLE`. -/
def madvMergeable : ℕ := 12

/-- `MADV_HUGEPAGE`. -/
def madvHugepage : ℕ := 14

/-- `1 << 21`, an `int`. -/
def hugeSize : CInt := 1 <<< 21

/-- `aligned_addr`, for the raw address: the `int`s are converted to `unsigned long`, the mask after
it has been computed. -/
def alignedAddr (rawAddr : U64) : U64 :=
  (rawAddr + hugeSize.signExtend 64 - 1) &&& (~~~(hugeSize - 1)).signExtend 64

/-- `if (call < 0) perror(s);`, and what follows. -/
def perrorIf (result : CInt) (s : String) (next : List Event) : List Event :=
  if result.toInt < 0 then .say (.perror s) :: next else next

/-- `main`, from step 4 on. -/
def mainThp (e : Env) : List Event :=
  let rawAddr := e.thp.ptr
  let thpPtr := alignedAddr rawAddr
  .mmap (2^22) mapPrivateAnonymous (-1) ::
  .madvise thpPtr (2^21) madvHugepage :: perrorIf e.thpAdvice "madvise thp"
  [.store .thpPtr thpPtr 0x41, .store .thpPtr (thpPtr + 4096) 0x42,
    .say (.huge e.pid e.thp.ptr thpPtr (thpPtr + 4096)), .say .pressEnter, .getchar,
    .munmap e.thp.ptr (2^22), .munmap e.file.ptr pageSize, .munmap e.anon.ptr pageSize,
    .munmap e.ksm1.ptr pageSize, .munmap e.ksm2.ptr pageSize, .close e.fd,
    .unlink "temp_map_file", .ret 0]

/-- `main`, from the pages for KSM on. -/
def mainKsm (e : Env) : List Event :=
  .mmap pageSize mapPrivateAnonymous (-1) :: .mmap pageSize mapPrivateAnonymous (-1) ::
  if e.ksm1.ptr = mapFailed ∨ e.ksm2.ptr = mapFailed then [.say (.perror "mmap ksm"), .ret 1] else
  .memset .ksmPtr1 e.ksm1.ptr 0xCC pageSize :: .memset .ksmPtr2 e.ksm2.ptr 0xCC pageSize ::
  .madvise e.ksm1.ptr pageSize madvMergeable :: perrorIf e.ksmAdvice1 "madvise 1" (
  .madvise e.ksm2.ptr pageSize madvMergeable :: perrorIf e.ksmAdvice2 "madvise 2" (
  .say (.ksm e.ksm1.ptr e.ksm2.ptr) :: .sleep 5 ::
  .say (.ready e.pid e.file.ptr e.anon.ptr e.ksm1.ptr) :: mainThp e))

/-- `main`, from step 2 on. -/
def mainAnon (e : Env) : List Event :=
  .mmap pageSize mapPrivateAnonymous (-1) ::
  if e.anon.ptr = mapFailed then [.say (.perror "mmap anon"), .ret 1] else
  .store .anonPtr e.anon.ptr 0x41 :: .say (.anon e.anon.ptr) :: mainKsm e

/-- `main`. -/
def main (e : Env) : List Event :=
  .say .title :: .say (.pid e.pid) :: .openFile "temp_map_file" ::
  if e.fd.toInt < 0 then [.say (.perror "open"), .ret 1] else
  .write e.fd 0x46 pageSize :: .mmap pageSize mapShared e.fd ::
  if e.file.ptr = mapFailed then [.say (.perror "mmap file"), .ret 1] else
  .store .filePtr e.file.ptr 0x4D :: .say (.file e.file.ptr) :: mainAnon e

/-- The event kills the program. -/
def Event.kills (kills : U64 → Bool) : Event → Bool
  | store _ addr _ => kills addr
  | memset _ addr _ n => (List.range n).any fun i => kills (addr + BitVec.ofNat 64 i)
  | _ => false

/-- The events up to the one that kills the program, which is the last one. -/
def upToKill (kills : U64 → Bool) : List Event → List Event
  | [] => []
  | ev :: evs => if ev.kills kills then [ev] else ev :: upToKill kills evs

/-- What the program does with the given results. -/
def Env.run (e : Env) : List Event := upToKill e.kills (main e)

/-! ## The addresses that it writes -/

/-- The event writes to the address through the pointer. -/
def Event.Writes (v : Var) (a : U64) : Event → Prop
  | store v' addr _ => v = v' ∧ a = addr
  | memset v' addr _ n => v = v' ∧ ∃ i < n, a = addr + BitVec.ofNat 64 i
  | _ => False

/-- One of the events writes to the address through the pointer. -/
def Writes (evs : List Event) (v : Var) (a : U64) : Prop := ∃ ev ∈ evs, ev.Writes v a

@[simp]
theorem not_writes_nil (v : Var) (a : U64) : ¬ Writes [] v a := by simp [Writes]

@[simp]
theorem writes_cons {ev : Event} {evs : List Event} {v : Var} {a : U64} :
    Writes (ev :: evs) v a ↔ ev.Writes v a ∨ Writes evs v a := by simp [Writes]

/-- The first event is written, and the others if it does not kill the program. -/
theorem writes_upToKill_cons {k : U64 → Bool} {ev : Event} {evs : List Event} {v : Var} {a : U64} :
    Writes (upToKill k (ev :: evs)) v a ↔
      ev.Writes v a ∨ ev.kills k = false ∧ Writes (upToKill k evs) v a := by
  rw [upToKill]
  cases hkill : ev.kills k with
  | false => simp
  | true => simp

/-- A report of a failed call writes nothing and kills nothing. -/
@[simp]
theorem writes_perrorIf {k : U64 → Bool} {result : CInt} {s : String} {evs : List Event} {v : Var}
    {a : U64} :
    Writes (upToKill k (perrorIf result s evs)) v a ↔ Writes (upToKill k evs) v a := by
  unfold perrorIf
  split_ifs <;> simp [writes_upToKill_cons, Event.Writes, Event.kills]

/-- `MAP_FAILED` is the address of no page. -/
theorem Mmap.ptr_eq_mapFailed_iff {m : Mmap len} : m.ptr = mapFailed ↔ m.succeeded = false := by
  cases m with
  | failed => exact iff_of_true rfl rfl
  | mapped addr aligned fits =>
    refine iff_of_false (fun h => ?_) Bool.noConfusion
    have haddr : addr = mapFailed := h
    rw [haddr] at aligned
    exact absurd aligned (by decide)

/-- A store to one of the `n` bytes from an address on kills the program. -/
def Env.KillsIn (e : Env) (addr : U64) (n : ℕ) : Prop :=
  ∃ i < n, e.kills (addr + BitVec.ofNat 64 i) = true

/-- The program ends before it maps the 4MB: it returns because a call has failed, or a store kills
it. -/
def Env.EndsEarly (e : Env) : Prop :=
  e.fd.toInt < 0 ∨ e.file.succeeded = false ∨ e.kills e.file.ptr = true ∨
    e.anon.succeeded = false ∨ e.kills e.anon.ptr = true ∨
    e.ksm1.succeeded = false ∨ e.ksm2.succeeded = false ∨
    e.KillsIn e.ksm1.ptr pageSize ∨ e.KillsIn e.ksm2.ptr pageSize

/-- A `memset` kills the program at one of its bytes. -/
theorem kills_memset_iff {e : Env} {v : Var} {addr : U64} {byte : BitVec 8} {n : ℕ} :
    (Event.memset v addr byte n).kills e.kills = false ↔ ¬ e.KillsIn addr n := by
  simp [Event.kills, Env.KillsIn]

/-- What is written from step 4 on. -/
theorem writes_mainThp_iff {e : Env} {v : Var} {a : U64} :
    Writes (upToKill e.kills (mainThp e)) v a ↔ v = .thpPtr ∧ (a = alignedAddr e.thp.ptr ∨
      e.kills (alignedAddr e.thp.ptr) = false ∧ a = alignedAddr e.thp.ptr + 4096) := by
  simp only [mainThp, writes_upToKill_cons, writes_perrorIf, Event.Writes, Event.kills]
  simp only [upToKill, not_writes_nil, false_or, true_and, and_false, or_false]
  rw [and_left_comm, ← and_or_left]

/-- What is written from the pages for KSM on. -/
theorem writes_mainKsm_iff {e : Env} {v : Var} {a : U64} :
    Writes (upToKill e.kills (mainKsm e)) v a ↔
      (e.ksm1.succeeded = true ∧ e.ksm2.succeeded = true) ∧
        ((v = .ksmPtr1 ∧ ∃ i < pageSize, a = e.ksm1.ptr + BitVec.ofNat 64 i) ∨
        ¬ e.KillsIn e.ksm1.ptr pageSize ∧
        ((v = .ksmPtr2 ∧ ∃ i < pageSize, a = e.ksm2.ptr + BitVec.ofNat 64 i) ∨
        ¬ e.KillsIn e.ksm2.ptr pageSize ∧ Writes (upToKill e.kills (mainThp e)) v a)) := by
  have hok : ¬ (e.ksm1.succeeded = false ∨ e.ksm2.succeeded = false) ↔
      e.ksm1.succeeded = true ∧ e.ksm2.succeeded = true := by
    rw [not_or, Bool.not_eq_false, Bool.not_eq_false]
  simp only [mainKsm, Mmap.ptr_eq_mapFailed_iff]
  split_ifs with hfail
  · exact iff_of_false (by simp [Event.Writes, Event.kills, upToKill]) fun h => hok.mpr h.1 hfail
  · rw [and_iff_right (hok.mp hfail)]
    simp only [writes_upToKill_cons, writes_perrorIf, kills_memset_iff]
    simp only [Event.Writes, Event.kills, false_or, true_and]

/-- What is written from step 2 on. -/
theorem writes_mainAnon_iff {e : Env} {v : Var} {a : U64} :
    Writes (upToKill e.kills (mainAnon e)) v a ↔ e.anon.succeeded = true ∧
      ((v = .anonPtr ∧ a = e.anon.ptr) ∨
        e.kills e.anon.ptr = false ∧ Writes (upToKill e.kills (mainKsm e)) v a) := by
  simp only [mainAnon, Mmap.ptr_eq_mapFailed_iff]
  split_ifs with hfail
  · simp [hfail, Event.Writes, Event.kills, upToKill]
  · rw [Bool.not_eq_false] at hfail
    simp [hfail, writes_upToKill_cons, Event.Writes, Event.kills]

/-- What the program writes. -/
theorem writes_run_iff {e : Env} {v : Var} {a : U64} :
    Writes e.run v a ↔ (¬ e.fd.toInt < 0 ∧ e.file.succeeded = true) ∧
      ((v = .filePtr ∧ a = e.file.ptr) ∨
        e.kills e.file.ptr = false ∧ Writes (upToKill e.kills (mainAnon e)) v a) := by
  simp only [Env.run, main, Mmap.ptr_eq_mapFailed_iff]
  split_ifs with hopen hfail
  · simp [hopen, Event.Writes, Event.kills, upToKill]
  · simp [hfail, Event.Writes, Event.kills, upToKill]
  · rw [Bool.not_eq_false] at hfail
    simp [hopen, hfail, writes_upToKill_cons, Event.Writes, Event.kills]

/-- The program writes through `thp_ptr` unless it ends early. -/
theorem writes_thpPtr_iff {e : Env} {a : U64} :
    Writes e.run .thpPtr a ↔ ¬ e.EndsEarly ∧ (a = alignedAddr e.thp.ptr ∨
      e.kills (alignedAddr e.thp.ptr) = false ∧ a = alignedAddr e.thp.ptr + 4096) := by
  rw [writes_run_iff, writes_mainAnon_iff, writes_mainKsm_iff, writes_mainThp_iff]
  simp only [Env.EndsEarly, reduceCtorEq, false_and, false_or, true_and, not_or,
    Bool.not_eq_false, Bool.not_eq_true, and_assoc]

/-! ## The mappings that it writes into -/

/-- The addresses of the mapping that a pointer points into. -/
def Env.range (e : Env) : Var → Set ℕ
  | .filePtr => e.file.range
  | .anonPtr => e.anon.range
  | .ksmPtr1 => e.ksm1.range
  | .ksmPtr2 => e.ksm2.range
  | .thpPtr => e.thp.range

/-- The bytes from the pointer of a mapping on are in it. -/
theorem Mmap.ptr_add_mem_range {m : Mmap len} (h : m.succeeded = true) {i : ℕ} (hi : i < len) :
    (m.ptr + BitVec.ofNat 64 i).toNat ∈ m.range := by
  cases m with
  | failed => exact absurd h (by simp [Mmap.succeeded])
  | mapped addr aligned fits =>
    have hadd : (addr + BitVec.ofNat 64 i).toNat = addr.toNat + i := by
      rw [BitVec.toNat_add, BitVec.toNat_ofNat, Nat.add_mod_mod, Nat.mod_eq_of_lt (by omega)]
    show (addr + BitVec.ofNat 64 i).toNat ∈ Set.Ico addr.toNat (addr.toNat + len)
    rw [hadd, Set.mem_Ico]
    omega

/-- The pointer of a mapping is in it. -/
theorem Mmap.ptr_mem_range {m : Mmap len} (h : m.succeeded = true) (hlen : 0 < len) :
    m.ptr.toNat ∈ m.range := by
  simpa using Mmap.ptr_add_mem_range h hlen

/-- Through the four pointers to pages, the program writes into their own mappings. -/
theorem inside_of_ne_thpPtr {e : Env} {v : Var} {a : U64} (hv : v ≠ .thpPtr)
    (h : Writes e.run v a) : a.toNat ∈ e.range v := by
  have hpage : 0 < pageSize := by decide
  rw [writes_run_iff, writes_mainAnon_iff, writes_mainKsm_iff, writes_mainThp_iff] at h
  obtain ⟨⟨-, hfile⟩, ⟨rfl, rfl⟩ | ⟨-, hanon, h⟩⟩ := h
  · exact Mmap.ptr_mem_range hfile hpage
  obtain ⟨rfl, rfl⟩ | ⟨-, ⟨hksm1, hksm2⟩, h⟩ := h
  · exact Mmap.ptr_mem_range hanon hpage
  obtain ⟨rfl, i, hi, rfl⟩ | ⟨-, ⟨rfl, i, hi, rfl⟩ | ⟨-, rfl, -⟩⟩ := h
  · exact Mmap.ptr_add_mem_range hksm1 hi
  · exact Mmap.ptr_add_mem_range hksm2 hi
  · exact absurd rfl hv

/-- The aligned address is computed as the least multiple of 2MB, modulo `2^64`. -/
theorem toNat_alignedAddr (rawAddr : U64) :
    (alignedAddr rawAddr).toNat = alignUp (2^21) rawAddr.toNat % 2^64 := by
  have hsize : hugeSize.signExtend 64 - 1 = BitVec.ofNat 64 (2^21 - 1) := by decide
  -- the mask is negative as an `int`, and its sign fills the upper half of the word
  have hmask : (~~~(hugeSize - 1)).signExtend 64 = BitField.field 64 21 64 := by decide
  rw [alignedAddr, BitVec.sub_eq_add_neg, BitVec.add_assoc, ← BitVec.sub_eq_add_neg, hsize, hmask]
  exact Align.toNat_add_and_field (by decide) rawAddr

/-- In a mapping of 4MB, the aligned address is the least multiple of 2MB that is not below the raw
one, and 2MB from there on are in the mapping. -/
theorem Mmap.alignedAddr_inside {m : Mmap (2^22)} (h : m.succeeded = true) :
    IsLeast {y | 2^21 ∣ y ∧ m.ptr.toNat ≤ y} (alignedAddr m.ptr).toNat ∧
      Set.Ico (alignedAddr m.ptr).toNat ((alignedAddr m.ptr).toNat + 2^21) ⊆ m.range := by
  have hpos : 0 < 2^21 := by decide
  cases m with
  | failed => exact absurd h (by simp [Mmap.succeeded])
  | mapped addr aligned fits =>
    have hlt : alignUp (2^21) addr.toNat < addr.toNat + 2^21 := Align.alignUp_lt hpos _
    have haligned : (alignedAddr addr).toNat = alignUp (2^21) addr.toNat := by
      rw [toNat_alignedAddr, Nat.mod_eq_of_lt (by omega)]
    show IsLeast {y | 2^21 ∣ y ∧ addr.toNat ≤ y} (alignedAddr addr).toNat ∧
      Set.Ico (alignedAddr addr).toNat ((alignedAddr addr).toNat + 2^21) ⊆
        Set.Ico addr.toNat (addr.toNat + 2 * 2^21)
    rw [haligned]
    exact ⟨Align.isLeast_alignUp hpos _, Align.Ico_alignUp_subset hpos _⟩

/-- Without a mapping, the aligned address is the null pointer. -/
theorem alignedAddr_mapFailed : alignedAddr mapFailed = 0 := by decide

/-- What the program writes through `thp_ptr` is in the 2MB from the aligned address on. -/
theorem mem_of_writes_thpPtr {e : Env} {a : U64} (h : Writes e.run .thpPtr a) :
    a.toNat ∈ Set.Ico (alignedAddr e.thp.ptr).toNat ((alignedAddr e.thp.ptr).toNat + 2^21) := by
  have hdvd : (alignedAddr e.thp.ptr).toNat % 2^21 = 0 := by
    have hmultiple : 2^21 ∣ alignUp (2^21) e.thp.ptr.toNat := Nat.dvd_mul_right _ _
    rw [toNat_alignedAddr]
    omega
  have hbound := (alignedAddr e.thp.ptr).isLt
  have hpage : (4096 : U64).toNat = 4096 := rfl
  have hadd : (alignedAddr e.thp.ptr + 4096).toNat = (alignedAddr e.thp.ptr).toNat + 4096 := by
    rw [BitVec.toNat_add, hpage, Nat.mod_eq_of_lt (by omega)]
  rw [Set.mem_Ico]
  rcases (writes_thpPtr_iff.mp h).2 with rfl | ⟨-, rfl⟩
  · omega
  · omega

/-- The program writes through `thp_ptr` only if the 4MB are mapped, and then the aligned address is
the least multiple of 2MB that is not below the raw one, 2MB from there on are in the mapping, and
the program writes to them. -/
def Env.ThpInside (e : Env) : Prop :=
  ∀ a, Writes e.run .thpPtr a → e.thp.succeeded = true ∧
    IsLeast {y | 2^21 ∣ y ∧ e.thp.ptr.toNat ≤ y} (alignedAddr e.thp.ptr).toNat ∧
    Set.Ico (alignedAddr e.thp.ptr).toNat ((alignedAddr e.thp.ptr).toNat + 2^21) ⊆ e.thp.range ∧
    a.toNat ∈ Set.Ico (alignedAddr e.thp.ptr).toNat ((alignedAddr e.thp.ptr).toNat + 2^21)

/-- `thp_ptr` is inside its own mapping exactly when the 4MB are mapped, or the program ends before
it asks for them. -/
theorem thpInside_iff (e : Env) : e.ThpInside ↔ e.thp.succeeded = true ∨ e.EndsEarly := by
  constructor
  · intro h
    by_contra hnot
    rw [not_or] at hnot
    have hwrite : Writes e.run .thpPtr (alignedAddr e.thp.ptr) :=
      writes_thpPtr_iff.mpr ⟨hnot.2, .inl rfl⟩
    exact hnot.1 (h _ hwrite).1
  · intro h a hwrite
    have hthp : e.thp.succeeded = true :=
      h.resolve_right (writes_thpPtr_iff.mp hwrite).1
    obtain ⟨hleast, hsubset⟩ := Mmap.alignedAddr_inside hthp
    exact ⟨hthp, hleast, hsubset, mem_of_writes_thpPtr hwrite⟩

/-- All that the program writes is in the mapping of its pointer exactly when the 4MB are mapped, or
the program ends before it asks for them. -/
theorem inside_iff (e : Env) :
    (∀ v a, Writes e.run v a → a.toNat ∈ e.range v) ↔ e.thp.succeeded = true ∨ e.EndsEarly := by
  constructor
  · intro h
    by_contra hnot
    rw [not_or, Bool.not_eq_true] at hnot
    have hmem : (alignedAddr e.thp.ptr).toNat ∈ e.thp.range :=
      h _ _ (writes_thpPtr_iff.mpr ⟨hnot.2, .inl rfl⟩)
    cases hthp : e.thp with
    | failed => rw [hthp] at hmem; exact hmem
    | mapped addr aligned fits => rw [hthp] at hnot; exact absurd hnot.1 Bool.noConfusion
  · intro h v a hwrite
    by_cases hv : v = .thpPtr
    · subst hv
      have hthp : e.thp.succeeded = true := h.resolve_right (writes_thpPtr_iff.mp hwrite).1
      exact (Mmap.alignedAddr_inside hthp).2 (mem_of_writes_thpPtr hwrite)
    · exact inside_of_ne_thpPtr hv hwrite

/-- A run in which the 4MB are not mapped, and all the rest succeeds; no store to a page but the
null page kills the program. -/
def noHugeMapping : Env where
  pid := 1000
  fd := 3
  file := .mapped 0x7f0000000000 (by decide) (by decide)
  anon := .mapped 0x7f0000001000 (by decide) (by decide)
  ksm1 := .mapped 0x7f0000002000 (by decide) (by decide)
  ksm2 := .mapped 0x7f0000003000 (by decide) (by decide)
  ksmAdvice1 := 0
  ksmAdvice2 := 0
  thp := .failed
  thpAdvice := -1
  kills a := decide (a.toNat < 4096)

/-- It does not end early. -/
theorem noHugeMapping_not_endsEarly : ¬ noHugeMapping.EndsEarly := by
  have hpage (p : U64) (hp : 4096 ≤ p.toNat) (hfits : p.toNat + 4096 ≤ 2^64) :
      ¬ noHugeMapping.KillsIn p pageSize := by
    rintro ⟨i, hi, hkill⟩
    have hlt : (p + BitVec.ofNat 64 i).toNat < 4096 := of_decide_eq_true hkill
    have hi' : i < 4096 := hi
    rw [BitVec.toNat_add, BitVec.toNat_ofNat, Nat.add_mod_mod, Nat.mod_eq_of_lt (by omega)] at hlt
    omega
  simp only [Env.EndsEarly, not_or]
  refine ⟨by decide, by decide, by decide, by decide, by decide, by decide, by decide,
    hpage _ ?_ ?_, hpage _ ?_ ?_⟩
  all_goals decide

/-- There the program writes through the null pointer. -/
theorem noHugeMapping_not_thpInside : ¬ noHugeMapping.ThpInside := by
  intro h
  have hnull : alignedAddr noHugeMapping.thp.ptr = 0 := alignedAddr_mapFailed
  have hwrite : Writes noHugeMapping.run .thpPtr 0 :=
    writes_thpPtr_iff.mpr ⟨noHugeMapping_not_endsEarly, .inl hnull.symm⟩
  exact absurd (h 0 hwrite).1 (by decide)

end KernelPortfolio.MappingUser
