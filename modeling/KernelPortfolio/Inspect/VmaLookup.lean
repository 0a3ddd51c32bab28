import KernelPortfolio.Inspect.Kernel

/-!
# The VMA lister `maple_tree_vma_lookup/vma_lookup_driver.c`

`vmaLookupInit` prints the VMAs of a process, and whether one of them contains an address
(`vmaLookupInit_found_iff`).
-/

namespace KernelPortfolio

/-- The lines that the module prints. -/
inductive VmaLine where
  | loaded
  | targetPid (pid : CInt)
  | targetAddr (addr : U64)
  | noTarget
  | notFound (pid : CInt)
  | noMm (pid : CInt)
  | title (pid : CInt)
  | header
  | separator
  | vma (idx : ℕ) (v : Vma) (size : U64) (contains : Bool)
  | total (count : ℕ)
  | found (addr : U64)
  | missing (addr : U64)
  | complete
  deriving DecidableEq, Repr

/-- `target_addr >= vma->vm_start && target_addr < vma->vm_end`. -/
def Vma.contains (v : Vma) (addr : U64) : Bool := v.vmStart ≤ addr && addr < v.vmEnd

/-- The loop `for_each_vma`, with `vma_count` and `found` as its state. -/
def forEachVma (addr : U64) : List Vma → ℕ → Bool → List (Event VmaLine) × ℕ × Bool
  | [], count, found => ([], count, found)
  | v :: vmas, count, found =>
    let rest := forEachVma addr vmas (count + 1) (found || v.contains addr)
    (.say (.vma count v (v.vmEnd - v.vmStart) (v.contains addr)) :: rest.1, rest.2)

/-- `vma_lookup_init`: what it does, and what it returns. The reference of `find_get_pid` is taken
in the argument of `pid_task`. -/
def vmaLookupInit (k : Kernel) (targetPid : CInt) (targetAddr : U64) :
    List (Event VmaLine) × ℤ :=
  let start := [.say .loaded, .say (.targetPid targetPid), .say (.targetAddr targetAddr)]
  if targetPid = 0 then (start ++ [.say .noTarget], einval) else
  let pid := k.findVpid targetPid
  let start := start ++ .ref (.take .rcu) :: pid.toList.map fun p => .ref (.take (.pid p.addr))
  match pid.bind Pid.task with
  | none => (start ++ [.say (.notFound targetPid), .ref (.drop .rcu)], esrch)
  | some task =>
    match task.mm with
    | none => (start ++ [.say (.noMm targetPid), .ref (.drop .rcu)], einval)
    | some mm =>
      let loop := forEachVma targetAddr mm.vmas 0 false
      (start ++ .ref (.take (.mmUsers mm.addr)) :: .ref (.drop .rcu) ::
        .ref (.take (.mmapLock mm.addr)) ::
        .say (.title targetPid) :: .say .header :: .say .separator ::
        (loop.1 ++ .ref (.drop (.mmapLock mm.addr)) :: .ref (.drop (.mmUsers mm.addr)) ::
          .say (.total loop.2.1) ::
          ((if targetAddr ≠ 0 then
              if loop.2.2 then [.say (.found targetAddr)] else [.say (.missing targetAddr)]
            else []) ++
            [.say .complete])), 0)

/-- The loop takes nothing. -/
theorem refs_forEachVma (addr : U64) (vmas : List Vma) (count : ℕ) (found : Bool) :
    refs (forEachVma addr vmas count found).1 = [] := by
  induction vmas generalizing count found with
  | nil => rfl
  | cons v vmas ih => exact ih (count + 1) (found || v.contains addr)

/-- The loop counts the VMAs, and finds the address if one of them contains it. -/
theorem forEachVma_state (addr : U64) (vmas : List Vma) (count : ℕ) (found : Bool) :
    (forEachVma addr vmas count found).2 =
      (count + vmas.length, found || vmas.any (·.contains addr)) := by
  induction vmas generalizing count found with
  | nil => simp [forEachVma]
  | cons v vmas ih =>
    simp only [forEachVma, ih, List.length_cons, List.any_cons, Bool.or_assoc]
    rw [show count + 1 + vmas.length = count + (vmas.length + 1) by omega]

/-- The loop prints a line for each VMA and nothing else. -/
theorem found_not_mem_forEachVma (addr a : U64) (vmas : List Vma) (count : ℕ) (found : Bool) :
    .say (.found a) ∉ (forEachVma addr vmas count found).1 := by
  induction vmas generalizing count found with
  | nil => simp [forEachVma]
  | cons v vmas ih =>
    simp only [forEachVma, List.mem_cons, not_or]
    exact ⟨by simp, ih (count + 1) (found || v.contains addr)⟩

/-- The module reports an address as found exactly when it is not zero, and the process that it
looks at has a VMA that contains it. -/
theorem vmaLookupInit_found_iff (k : Kernel) (pid : CInt) (addr : U64) :
    .say (.found addr) ∈ (vmaLookupInit k pid addr).1 ↔
      pid ≠ 0 ∧ addr ≠ 0 ∧ ∃ mm ∈ ((k.findVpid pid).bind Pid.task).bind Task.mm,
        ∃ v ∈ mm.vmas, v.contains addr = true := by
  simp only [vmaLookupInit, forEachVma_state]
  rcases eq_or_ne pid 0 with hpid | hpid
  · simp [hpid]
  rw [if_neg hpid]
  cases (k.findVpid pid).bind Pid.task with
  | none => simp
  | some task =>
    obtain ⟨taddr, comm, tpid, mm⟩ := task
    cases mm with
    | none => simp
    | some mm =>
      have hloop := found_not_mem_forEachVma addr addr mm.vmas 0 false
      have hany : (∃ v ∈ mm.vmas, v.contains addr = true) ↔
          mm.vmas.any (·.contains addr) = true := List.any_eq_true.symm
      simp only [Bool.false_or, Option.bind_some, Option.mem_def, Option.some.injEq,
        exists_eq_left', hany, hpid, ne_eq, not_false_eq_true, true_and]
      by_cases haddr : addr = 0
      · simp [haddr] at hloop ⊢
        exact hloop
      · cases mm.vmas.any (·.contains addr) <;> simp [hloop]

end KernelPortfolio
