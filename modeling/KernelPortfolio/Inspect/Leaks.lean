import KernelPortfolio.Inspect.PhysProof
import KernelPortfolio.Inspect.VmaLookup

/-!
# What the two mm inspectors leave behind

`leaves_load` computes what a load of `phys_proof` or `vma_lookup_driver` leaves held when its init
function returns: nothing, or one reference to the `struct pid` that it looked up.
`inspectors_balanced_iff` says which runs of loads leave nothing.
-/

namespace KernelPortfolio

open Ledger (Balanced Leaves)

/-- A load of one of the two modules, with what its init function sees. -/
inductive Load where
  | physProof (k : Kernel) (targetPid : CInt) (targetAddr : U64)
  | vmaLookup (k : Kernel) (targetPid : CInt) (targetAddr : U64)

/-- The operations of the init function on resources. -/
def Load.refs : Load → List (Ledger.Op Resource)
  | physProof k pid addr => KernelPortfolio.refs (proofInit k pid addr).1
  | vmaLookup k pid addr => KernelPortfolio.refs (vmaLookupInit k pid addr).1

/-- The load drops the pid that it looks up, if there is one: `phys_proof` when it reaches the
address space, and `vma_lookup_driver` never. -/
def Load.DropsPid : Load → Prop
  | physProof k pid _ => k.findVpid pid = none ∨ (k.findMm pid).isSome = true
  | vmaLookup k pid _ => pid = 0 ∨ k.findVpid pid = none

/-- The reference to a `struct pid`. -/
def Pid.one (p : Pid) : Resource → ℕ := Pi.single (.pid p.addr) 1

/-- What a load of `phys_proof` leaves. -/
def proofLeak (k : Kernel) (pid : CInt) : Resource → ℕ :=
  match k.findVpid pid, k.findMm pid with
  | some p, none => p.one
  | _, _ => 0

/-- What a load of `vma_lookup_driver` leaves. -/
def vmaLeak (k : Kernel) (pid : CInt) : Resource → ℕ :=
  if pid = 0 then 0 else
  match k.findVpid pid with
  | none => 0
  | some p => p.one

/-- What a load leaves. -/
def Load.leak : Load → Resource → ℕ
  | physProof k pid _ => proofLeak k pid
  | vmaLookup k pid _ => vmaLeak k pid

/-- Under the lock, the walk of `phys_proof` takes nothing. -/
theorem refs_proofLevels (k : Kernel) (pid : CInt) (mm : Mm) (va : U64) :
    refs (proofLevels k pid mm va) = [] := by
  simp only [proofLevels, refs_read]
  split_ifs <;> rfl

/-- What a load of `phys_proof` leaves: the pid, when it returns for want of a task or an mm. -/
theorem leaves_proofInit (k : Kernel) (pid : CInt) (addr : U64) :
    Leaves (refs (proofInit k pid addr).1) (proofLeak k pid) := by
  unfold proofInit proofLeak Kernel.findMm
  cases k.findVpid pid with
  | none => exact Ledger.leaves_nil
  | some p =>
    obtain ⟨paddr, task⟩ := p
    cases task with
    | none => exact Ledger.leaves_nil.take (Resource.pid paddr)
    | some task =>
      obtain ⟨taddr, comm, tpid, mm⟩ := task
      have htask := Ledger.leaves_nil.bracket (Resource.task taddr)
      cases mm with
      | none => exact htask.take (.pid paddr)
      | some mm =>
        simp only [refs_say, refs_ref, refs_append, refs_proofLevels, refs_nil, List.nil_append]
        have hlock := Ledger.leaves_nil.bracket (Resource.mmapLock mm.addr)
        exact (hlock.bracket (.task taddr)).bracket (.pid paddr)

/-- What a load of `vma_lookup_driver` leaves: the pid, whenever there is one. -/
theorem leaves_vmaLookupInit (k : Kernel) (pid : CInt) (addr : U64) :
    Leaves (refs (vmaLookupInit k pid addr).1) (vmaLeak k pid) := by
  simp only [vmaLookupInit, vmaLeak]
  rcases eq_or_ne pid 0 with hpid | hpid
  · rw [if_pos hpid, if_pos hpid]
    exact Ledger.leaves_nil
  rw [if_neg hpid, if_neg hpid]
  cases k.findVpid pid with
  | none => exact Ledger.leaves_nil.bracket Resource.rcu
  | some p =>
    obtain ⟨paddr, task⟩ := p
    -- the section in which the pid is looked up
    have hrcu := (Ledger.leaves_nil.take (Resource.pid paddr)).bracket Resource.rcu
    cases task with
    | none => exact hrcu
    | some task =>
      obtain ⟨taddr, comm, tpid, mm⟩ := task
      cases mm with
      | none => exact hrcu
      | some mm =>
        have hmm := (Ledger.leaves_nil.bracket (Resource.mmapLock mm.addr)).bracket
          (.mmUsers mm.addr)
        have hboth := hrcu.append hmm
        simp only [List.nil_append, List.cons_append] at hboth
        have hne : Resource.mmUsers mm.addr ≠ .rcu := by simp
        have hops := Leaves.handOver [.take Resource.rcu, .take (Resource.pid paddr)] hne hboth
        -- the lines about the address take nothing
        have hresult : refs (if addr ≠ 0 then
            if (forEachVma addr mm.vmas 0 false).2.2 = true then [.say (.found addr)]
            else [.say (.missing addr)]
          else [] : List (Event VmaLine)) = [] := by
          split_ifs <;> rfl
        simp only [refs_append, refs_say, refs_ref, refs_nil, refs_forEachVma, hresult,
          List.nil_append, List.append_nil, Option.toList, List.map, Option.bind_some]
        exact hops

/-- What a load leaves. -/
theorem leaves_load (l : Load) : Leaves l.refs l.leak := by
  cases l with
  | physProof k pid addr => exact leaves_proofInit k pid addr
  | vmaLookup k pid addr => exact leaves_vmaLookupInit k pid addr

/-- A reference to a `struct pid` is something. -/
theorem Pid.one_ne_zero (p : Pid) : p.one ≠ 0 := by
  unfold Pid.one
  rw [Ne, Pi.single_eq_zero_iff]
  exact Nat.one_ne_zero

/-- `phys_proof` leaves nothing when there is no pid, or it reaches the address space. -/
theorem proofLeak_eq_zero_iff (k : Kernel) (pid : CInt) :
    proofLeak k pid = 0 ↔ k.findVpid pid = none ∨ (k.findMm pid).isSome = true := by
  unfold proofLeak
  cases k.findVpid pid with
  | none => simp
  | some p =>
    have hone := p.one_ne_zero
    cases k.findMm pid with
    | none => simp [hone]
    | some mm => simp

/-- `vma_lookup_driver` leaves nothing when there is no pid, or it does not look. -/
theorem vmaLeak_eq_zero_iff (k : Kernel) (pid : CInt) :
    vmaLeak k pid = 0 ↔ pid = 0 ∨ k.findVpid pid = none := by
  unfold vmaLeak
  split_ifs with hpid
  · simp [hpid]
  · cases k.findVpid pid with
    | none => simp
    | some p =>
      have hone := p.one_ne_zero
      simp only [hone, reduceCtorEq, or_false, false_iff]
      exact hpid

/-- A load leaves nothing exactly when it drops the pid that it looks up. -/
theorem leak_eq_zero_iff (l : Load) : l.leak = 0 ↔ l.DropsPid := by
  cases l with
  | physProof k pid addr => exact proofLeak_eq_zero_iff k pid
  | vmaLookup k pid addr => exact vmaLeak_eq_zero_iff k pid

/-- A load is balanced exactly when it drops the pid that it looks up. -/
theorem balanced_load_iff (l : Load) : Balanced l.refs ↔ l.DropsPid := by
  rw [← leak_eq_zero_iff, ← Ledger.leaves_zero_iff]
  constructor
  · exact fun h => (leaves_load l).unique h
  · intro h
    have hleaves := leaves_load l
    rwa [h] at hleaves

/-- A run of loads drops everything that it takes, load by load, and leaves all counts as they were
after each of them, exactly when every load drops the pid that it looks up. -/
theorem inspectors_balanced_iff (loads : List Load) (counts : Resource → ℕ) :
    ((∀ l ∈ loads, Balanced l.refs) ∧
      ∀ n, Ledger.run ((loads.take n).flatMap Load.refs) counts = some counts) ↔
      ∀ l ∈ loads, l.DropsPid := by
  constructor
  · exact fun h l hl => (balanced_load_iff l).mp (h.1 l hl)
  · intro h
    have hall : ∀ l ∈ loads, Balanced l.refs := fun l hl => (balanced_load_iff l).mpr (h l hl)
    refine ⟨hall, fun n => ?_⟩
    exact (Balanced.flatMap fun l hl => hall l (List.mem_of_mem_take hl)).run_eq counts

/-- The module leaks: `phys_proof` for a pid whose task is gone, and `vma_lookup_driver` for a
process like any other. -/
theorem inspectors_not_balanced :
    ¬ Balanced (Load.physProof { Kernel.ofEntries pageEntries with
      findVpid := fun _ => some ⟨0xFFFF888004000000, none⟩ } 7 0x1234).refs ∧
    ¬ Balanced (Load.vmaLookup (.ofEntries pageEntries) 7 0x1234).refs := by
  constructor
  · intro h
    exact absurd (h.takes_eq_drops (.pid 0xFFFF888004000000)) (by decide)
  · intro h
    exact absurd (h.takes_eq_drops (.pid 0xFFFF888004000000)) (by decide)

end KernelPortfolio
