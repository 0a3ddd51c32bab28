import KernelPortfolio.Inspect.PageMapping
import KernelPortfolio.Inspect.PhysProof

/-!
# The drivers that pin a page

`mappingInit`, `metadataHwInit` and `lruMlockInit` find a process by its number and pin a page of
it with `get_user_pages_remote`, which wants an mm with its lock held and gives a page to be put.
`RespectsGup` is that protocol, with the references that the drivers take on the way, and
`pinDrivers_respectGup_iff` says in which runs they keep to it: only in those that end before the
call.
-/

namespace KernelPortfolio

open Ledger (Balanced Leaves)

/-! ## The drivers -/

section

variable {α : Type}

/-- A call of `get_user_pages_remote` for one page, with its outcome: a pinned page or an error. -/
def getUserPagesRemote (mm : Option Mm) (addr : U64) (page : Option StructPage) :
    List (PinEvent α) :=
  .gup mm addr :: page.toList.map fun p => .ref (.take (.page p.addr))

/-- `get_user_page` of `mapping_hw`: what it does, and what it returns. `gup` is the outcome of
`get_user_pages_remote`. -/
def getUserPage (k : Kernel) (gup : Option StructPage) (pidNr : CInt) (addr : U64) :
    List (PinEvent α) × Option StructPage :=
  match k.findVpid pidNr with
  | none => ([], none)
  | some pid =>
    let takePid := PinEvent.ref (.take (.pid pid.addr))
    let putPid := PinEvent.ref (.drop (.pid pid.addr))
    match pid.task with
    | none => ([takePid, putPid], none)
    | some task =>
      match task.mm with
      | none => ([takePid, putPid], none)
      | some mm => (takePid :: (getUserPagesRemote mm addr gup ++ [putPid]), gup)

end

/-- `mapping_init`: what it does, and what it returns. -/
def mappingInit (k : Kernel) (tailMapping : U64) (gup : Option StructPage) (targetPid : CInt)
    (targetVa : U64) : List (PinEvent MappingLine) × ℤ :=
  if targetPid = 0 ∨ targetVa = 0 then ([.say .usage], einval) else
  let found := getUserPage k gup targetPid targetVa
  let start := .say (.init targetPid targetVa) :: found.1
  match found.2 with
  | none => (start ++ [.say .failed], einval)
  | some page =>
    (start ++ inspectMapping tailMapping page ++ [.ref (.drop (.page page.addr))], 0)

/-- `metadata_hw_init`: what it does, and what it returns. `anon` and `file` are the outcomes of
`get_user_pages_remote` for the two addresses. -/
def metadataHwInit (k : Kernel) (anon file : Option StructPage) (targetPid : CInt)
    (anonAddr fileAddr : U64) : List (PinEvent MetaLine) × ℤ :=
  let start := [.say (.init targetPid)]
  if targetPid = 0 then (start, einval) else
  match k.findVpid targetPid with
  | none => (start, esrch)
  | some pid =>
    let start := start ++ [.ref (.take (.pid pid.addr))]
    match pid.task with
    | none => (start, esrch)
    | some task =>
      (start ++
        (if anonAddr ≠ 0 then
          getUserPagesRemote task.mm anonAddr anon ++ inspectPage anon "ANONYMOUS" else []) ++
        (if fileAddr ≠ 0 then
          getUserPagesRemote task.mm fileAddr file ++ inspectPage file "FILE-BACKED" else []), 0)

/-- The lines that `lru_mlock_hw` prints. -/
inductive LruLine where
  | init (pid : CInt) (addr : U64)
  | pagePtr (page : U64)
  | lruNext (ptr : U64)
  | lruPrev (ptr : U64)
  | mlockCount (n : CInt)
  | flags (flags : U64)
  deriving DecidableEq, Repr

/-- `inspect_lru_mlock`, which puts the page at its end. -/
def inspectLruMlock (page : Option StructPage) : List (PinEvent LruLine) :=
  match page with
  | none => []
  | some page =>
    [.say (.pagePtr page.addr), .look page.addr .word1, .look page.addr .lruPrev,
      .look page.addr .lruPrev, .look page.addr .flags, .say (.lruNext page.word1),
      .say (.lruPrev page.lruPrev), .say (.mlockCount (page.lruPrev.setWidth 32)),
      .say (.flags page.flags), .ref (.drop (.page page.addr))]

/-- `lru_mlock_init`: what it does, and what it returns. -/
def lruMlockInit (k : Kernel) (gup : Option StructPage) (targetPid : CInt) (targetAddr : U64) :
    List (PinEvent LruLine) × ℤ :=
  let start := [.say (.init targetPid targetAddr)]
  if targetPid = 0 ∨ targetAddr = 0 then (start, einval) else
  match k.findVpid targetPid with
  | none => (start, esrch)
  | some pid =>
    let start := start ++ [.ref (.take (.pid pid.addr))]
    match pid.task with
    | none => (start, esrch)
    | some task =>
      (start ++ getUserPagesRemote task.mm targetAddr gup ++ inspectLruMlock gup, 0)

/-! ## The protocol -/

section

variable {α : Type}

/-- After the events, the resource is held. -/
def Holds (r : PinResource) (t : List (PinEvent α)) : Prop :=
  Ledger.drops r (pinRefs t) < Ledger.takes r (pinRefs t)

/-- The protocol of `get_user_pages_remote`: it is called with an mm whose lock is held, the words
of a page are read while the page is pinned, and every reference, lock and pinned page is dropped
once. -/
structure RespectsGup (t : List (PinEvent α)) : Prop where
  locked : ∀ pre mm addr post, t = pre ++ .gup mm addr :: post →
    ∃ m, mm = some m ∧ Holds (.mmapLock m.addr) pre
  pinned : ∀ pre page f post, t = pre ++ .look page f :: post → Holds (.page page) pre
  balanced : Balanced (pinRefs t)

/-- Events that neither call `get_user_pages_remote` nor read a page respect the protocol if they
are balanced. -/
theorem RespectsGup.of_balanced {t : List (PinEvent α)} (hgup : ∀ mm addr, .gup mm addr ∉ t)
    (hlook : ∀ page f, .look page f ∉ t) (h : Balanced (pinRefs t)) : RespectsGup t where
  locked pre mm addr post ht := absurd (ht ▸ by simp) (hgup mm addr)
  pinned pre page f post ht := absurd (ht ▸ by simp) (hlook page f)
  balanced := h

end

section

variable {α : Type}

/-- A call pins what it returns. -/
theorem pinRefs_getUserPagesRemote (mm : Option Mm) (addr : U64) (page : Option StructPage) :
    pinRefs (getUserPagesRemote mm addr page : List (PinEvent α)) =
      page.toList.map fun p => .take (.page p.addr) := by
  cases page <;> rfl

/-- `inspect_page` puts the page. -/
theorem pinRefs_inspectPage (page : Option StructPage) (label : String) :
    pinRefs (inspectPage page label) = page.toList.map fun p => .drop (.page p.addr) := by
  cases page with
  | none => rfl
  | some page =>
    simp only [inspectPage]
    split_ifs <;> rfl

/-- `inspect_lru_mlock` puts the page. -/
theorem pinRefs_inspectLruMlock (page : Option StructPage) :
    pinRefs (inspectLruMlock page) = page.toList.map fun p => .drop (.page p.addr) := by
  cases page <;> rfl

/-- A page that is pinned and put, if it is pinned at all. -/
theorem leaves_pin (page : Option StructPage) :
    Leaves ((page.toList.map fun p => .take (.page p.addr)) ++
      page.toList.map fun p => .drop (.page p.addr)) (0 : PinResource → ℕ) := by
  cases page with
  | none => exact Ledger.leaves_nil
  | some page => exact Ledger.leaves_nil.bracket (PinResource.page page.addr)

end

/-- What `metadata_hw_init` leaves: the pid, if it finds one. -/
theorem leaves_metadataHwInit {k : Kernel} {pid : CInt} {p : Pid} (hpid : pid ≠ 0)
    (hp : k.findVpid pid = some p) (anon file : Option StructPage) (anonAddr fileAddr : U64) :
    Leaves (pinRefs (metadataHwInit k anon file pid anonAddr fileAddr).1)
      (Pi.single (.pid p.addr) 1) := by
  -- each of the two calls pins a page and puts it, or pins none
  have hcall : ∀ (mm : Option Mm) (addr : U64) (page : Option StructPage) (label : String),
      Leaves (pinRefs (if addr ≠ 0 then
        getUserPagesRemote mm addr page ++ inspectPage page label else [])) 0 := by
    intro mm addr page label
    split_ifs
    · rw [pinRefs_append, pinRefs_getUserPagesRemote, pinRefs_inspectPage]
      exact leaves_pin page
    · exact Ledger.leaves_nil
  unfold metadataHwInit
  rw [if_neg hpid, hp]
  obtain ⟨paddr, task⟩ := p
  cases task with
  | none => exact Ledger.leaves_nil.take (PinResource.pid paddr)
  | some task =>
    have hboth := (hcall task.mm anonAddr anon "ANONYMOUS").append
      (hcall task.mm fileAddr file "FILE-BACKED")
    simpa using hboth.take (.pid paddr)

/-- What `lru_mlock_init` leaves: the pid, if it finds one. -/
theorem leaves_lruMlockInit {k : Kernel} {pid : CInt} {addr : U64} {p : Pid} (hpid : pid ≠ 0)
    (haddr : addr ≠ 0) (hp : k.findVpid pid = some p) (gup : Option StructPage) :
    Leaves (pinRefs (lruMlockInit k gup pid addr).1) (Pi.single (.pid p.addr) 1) := by
  unfold lruMlockInit
  rw [if_neg (not_or.mpr ⟨hpid, haddr⟩), hp]
  obtain ⟨paddr, task⟩ := p
  cases task with
  | none => exact Ledger.leaves_nil.take (PinResource.pid paddr)
  | some task =>
    have hpin := (leaves_pin gup).take (.pid paddr)
    simpa [pinRefs_getUserPagesRemote, pinRefs_inspectLruMlock] using hpin

/-- What leaves a reference is not balanced. -/
theorem not_balanced_of_leaves {ops : List (Ledger.Op PinResource)} {r : PinResource}
    (h : Leaves ops (Pi.single r 1)) : ¬ Balanced ops := by
  intro hbalanced
  have hzero := h.unique (Ledger.leaves_zero_iff.mpr hbalanced)
  exact absurd (Pi.single_eq_zero_iff.mp hzero) one_ne_zero

section

variable {k : Kernel} {pid : CInt} (gup : Option StructPage) (va : U64)

/-- `get_user_page` without an mm to find returns nothing, and puts a pid that it found. -/
theorem getUserPage_of_none (h : k.findMm pid = none) :
    ∃ ops : List (Ledger.Op PinResource), Balanced ops ∧
      getUserPage k gup pid va = (ops.map (.ref : _ → PinEvent MappingLine), none) := by
  unfold Kernel.findMm at h
  unfold getUserPage
  cases hpid : k.findVpid pid with
  | none => exact ⟨[], Ledger.leaves_zero_iff.mp Ledger.leaves_nil, rfl⟩
  | some p =>
    obtain ⟨paddr, task⟩ := p
    have hput := Ledger.leaves_zero_iff.mp (Ledger.leaves_nil.bracket (PinResource.pid paddr))
    cases task with
    | none => exact ⟨_, hput, rfl⟩
    | some task =>
      obtain ⟨taddr, comm, tpid, mm⟩ := task
      simp only [hpid, Option.bind_some] at h
      subst h
      exact ⟨_, hput, rfl⟩

/-- `get_user_page` calls `get_user_pages_remote` with the mm that it finds, and holds the pid
only. -/
theorem getUserPage_of_some {mm : Mm} (h : k.findMm pid = some mm) :
    ∃ paddr, getUserPage k gup pid va =
      ((.ref (.take (.pid paddr)) :: (getUserPagesRemote mm va gup ++
        [.ref (.drop (.pid paddr))]) : List (PinEvent MappingLine)), gup) := by
  unfold Kernel.findMm at h
  unfold getUserPage
  cases hpid : k.findVpid pid with
  | none => simp [hpid] at h
  | some p =>
    obtain ⟨paddr, task⟩ := p
    cases task with
    | none => simp [hpid] at h
    | some task =>
      obtain ⟨taddr, comm, tpid, mm'⟩ := task
      simp only [hpid, Option.bind_some] at h
      subst h
      exact ⟨paddr, rfl⟩

end

/-- `mapping_init` leaves nothing: it puts the pid, and then the page. -/
theorem leaves_mappingInit (k : Kernel) (tailMapping : U64) (gup : Option StructPage) (pid : CInt)
    (va : U64) : Leaves (pinRefs (mappingInit k tailMapping gup pid va).1) 0 := by
  have hinspect : ∀ page, pinRefs (inspectMapping tailMapping page) = [] := by
    intro page
    simp only [inspectMapping]
    split_ifs <;> rfl
  unfold mappingInit
  by_cases hparams : pid = 0 ∨ va = 0
  · rw [if_pos hparams]
    exact Ledger.leaves_nil
  rw [if_neg hparams]
  cases hmm : k.findMm pid with
  | none =>
    obtain ⟨ops, hops, hget⟩ := getUserPage_of_none gup va hmm
    rw [hget]
    simpa [pinRefs_map_ref] using Ledger.leaves_zero_iff.mpr hops
  | some mm =>
    obtain ⟨paddr, hget⟩ := getUserPage_of_some gup va hmm
    rw [hget]
    cases gup with
    | none => exact Ledger.leaves_nil.bracket (PinResource.pid paddr)
    | some page =>
      have hpage := Ledger.leaves_nil.bracket (PinResource.page page.addr)
      have hpid := (Ledger.leaves_nil.bracket (PinResource.pid paddr)).append hpage
      have hops := Leaves.handOver [.take (PinResource.pid paddr)]
        (show PinResource.page page.addr ≠ .pid paddr by simp) hpid
      simpa [pinRefs_getUserPagesRemote, hinspect] using hops

/-- `mapping_init` respects the protocol when it finds no mm to look at. -/
theorem mappingInit_respectsGup_iff (k : Kernel) (tailMapping : U64) (gup : Option StructPage)
    (pid : CInt) (va : U64) :
    RespectsGup (mappingInit k tailMapping gup pid va).1 ↔
      pid = 0 ∨ va = 0 ∨ k.findMm pid = none := by
  rw [← or_assoc]
  constructor
  · intro h
    by_contra hcall
    obtain ⟨hparams, hmm⟩ := not_or.mp hcall
    obtain ⟨mm, hmm⟩ := Option.ne_none_iff_exists'.mp hmm
    obtain ⟨paddr, hget⟩ := getUserPage_of_some gup va hmm
    -- the call comes right after the reference to the pid
    obtain ⟨post, hpost⟩ : ∃ post, (mappingInit k tailMapping gup pid va).1 =
        [.say (.init pid va), .ref (.take (.pid paddr))] ++ .gup (some mm) va :: post := by
      unfold mappingInit
      rw [if_neg hparams, hget]
      cases gup <;> exact ⟨_, rfl⟩
    obtain ⟨m, -, hheld⟩ := h.locked _ _ _ _ hpost
    exact absurd hheld (by simp [Holds, Ledger.takes, Ledger.drops])
  · intro h
    unfold mappingInit
    split_ifs with hparams
    · exact .of_balanced (by simp) (by simp) (Ledger.leaves_zero_iff.mp Ledger.leaves_nil)
    · obtain ⟨ops, hops, hget⟩ :=
        getUserPage_of_none gup va (h.resolve_left hparams)
      rw [hget]
      exact .of_balanced (by simp) (by simp) (by simpa [pinRefs_map_ref] using hops)

/-- `metadata_hw_init` respects the protocol when it finds no pid. -/
theorem metadataHwInit_respectsGup_iff (k : Kernel) (anon file : Option StructPage) (pid : CInt)
    (anonAddr fileAddr : U64) :
    RespectsGup (metadataHwInit k anon file pid anonAddr fileAddr).1 ↔
      pid = 0 ∨ k.findVpid pid = none := by
  constructor
  · intro h
    by_contra hpid
    obtain ⟨hpid, hp⟩ := not_or.mp hpid
    obtain ⟨p, hp⟩ := Option.ne_none_iff_exists'.mp hp
    exact not_balanced_of_leaves (leaves_metadataHwInit hpid hp anon file anonAddr fileAddr)
      h.balanced
  · intro h
    have hnil := Ledger.leaves_zero_iff.mp (Ledger.leaves_nil (R := PinResource))
    -- both runs end before the first reference is taken
    unfold metadataHwInit
    by_cases hpid : pid = 0
    · rw [if_pos hpid]
      exact .of_balanced (by simp) (by simp) hnil
    · rw [if_neg hpid, h.resolve_left hpid]
      exact .of_balanced (by simp) (by simp) hnil

/-- `lru_mlock_init` respects the protocol when it finds no pid. -/
theorem lruMlockInit_respectsGup_iff (k : Kernel) (gup : Option StructPage) (pid : CInt)
    (addr : U64) :
    RespectsGup (lruMlockInit k gup pid addr).1 ↔
      pid = 0 ∨ addr = 0 ∨ k.findVpid pid = none := by
  rw [← or_assoc]
  constructor
  · intro h
    by_contra hcall
    obtain ⟨hparams, hp⟩ := not_or.mp hcall
    obtain ⟨hpid, haddr⟩ := not_or.mp hparams
    obtain ⟨p, hp⟩ := Option.ne_none_iff_exists'.mp hp
    exact not_balanced_of_leaves (leaves_lruMlockInit hpid haddr hp gup) h.balanced
  · intro h
    have hnil := Ledger.leaves_zero_iff.mp (Ledger.leaves_nil (R := PinResource))
    unfold lruMlockInit
    split_ifs with hparams
    · exact .of_balanced (by simp) (by simp) hnil
    · rw [h.resolve_left hparams]
      exact .of_balanced (by simp) (by simp) hnil

/-- Whatever the callees return, a driver respects the protocol of `get_user_pages_remote` exactly
in the runs that end before the call: `mapping_init` when it finds no mm, as it calls without the
lock, and the other two when they find no pid, as they never put it. -/
theorem pinDrivers_respectGup_iff (k : Kernel) (tailMapping : U64)
    (gup anon file : Option StructPage) (pid : CInt) (addr fileAddr : U64) :
    (RespectsGup (mappingInit k tailMapping gup pid addr).1 ↔
      pid = 0 ∨ addr = 0 ∨ k.findMm pid = none) ∧
    (RespectsGup (metadataHwInit k anon file pid addr fileAddr).1 ↔
      pid = 0 ∨ k.findVpid pid = none) ∧
    (RespectsGup (lruMlockInit k gup pid addr).1 ↔
      pid = 0 ∨ addr = 0 ∨ k.findVpid pid = none) :=
  ⟨mappingInit_respectsGup_iff k tailMapping gup pid addr,
    metadataHwInit_respectsGup_iff k anon file pid addr fileAddr,
    lruMlockInit_respectsGup_iff k gup pid addr⟩

/-- For a process with an mm, `mapping_init` calls without the lock, and the other two leave the
pid. For a kernel thread, they call with a NULL mm. -/
theorem pinDrivers_not_respectGup :
    ¬ RespectsGup (mappingInit (.ofEntries pageEntries) 0x400 (some .sample) 7 0x1234).1 ∧
    ¬ RespectsGup (metadataHwInit (.ofEntries pageEntries) (some .sample) none 7 0x1234 0).1 ∧
    ¬ RespectsGup (lruMlockInit { Kernel.ofEntries pageEntries with
      findVpid := fun _ => some ⟨0xFFFF888004000000, some { Task.sample with mm := none }⟩ }
        none 7 0x1234).1 := by
  refine ⟨fun h => ?_, fun h => ?_, fun h => ?_⟩
  · obtain ⟨m, hm, hheld⟩ :=
      h.locked [.say (.init 7 0x1234), .ref (.take (.pid 0xFFFF888004000000))] _ _ _ rfl
    cases hm
    exact absurd hheld (by unfold Holds; decide)
  · exact absurd (h.balanced.takes_eq_drops (.pid 0xFFFF888004000000)) (by decide)
  · obtain ⟨m, hm, -⟩ := h.locked [.say (.init 7 0x1234), .ref (.take (.pid 0xFFFF888004000000))]
      _ _ _ rfl
    cases hm

end KernelPortfolio
