import KernelPortfolio.Inspect.AxiomWalk
import KernelPortfolio.Inspect.Leaks
import KernelPortfolio.Lib.Schedule

/-!
# The inspected process may exit at any time

An inspector loads `task->mm` in one step and looks at the page tables or the VMAs of the mm in
later ones. Between any two of them the process may exit, which takes its pointer away and drops
its reference to `mm_users`; with the last reference the page tables and the VMAs are gone. `Prog`
is an inspector as a program that takes such steps. `aliveWhenUsed_of_exitCovered` shows that the
mm is alive whenever it is used, in every interleaving in which the exit comes while there is
another reference, or when the inspector is done with the mm.
-/

namespace KernelPortfolio

open Schedule (Along exec turn)

variable {α : Type}

/-! ## Inspectors as programs -/

/-- A step of an inspector: an event, or a read of a VMA. -/
inductive LifeStep (α : Type) where
  | event (ev : Event α)
  | vma (v : Vma)

/-- What an inspector still does: it returns, or takes a step, or loads `task->mm`. -/
inductive Prog (α : Type) where
  | done (ret : ℤ)
  | step (s : LifeStep α) (next : Prog α)
  | loadMm (next : Option Mm → Prog α)

/-- A list of steps, and then the rest. -/
def Prog.steps (l : List (LifeStep α)) (p : Prog α) : Prog α := l.foldr .step p

/-- A list of events, and then the rest. -/
def Prog.events (t : List (Event α)) (p : Prog α) : Prog α := .steps (t.map .event) p

/-- What a program does, and what it returns, when `task->mm` does not change. -/
def Prog.run (mm : Option Mm) : Prog α → List (Event α) × ℤ
  | done ret => ([], ret)
  | step (.event ev) next => (ev :: (next.run mm).1, (next.run mm).2)
  | step (.vma _) next => next.run mm
  | loadMm next => (next mm).run mm

/-- `trace_page_table_walk` as a program. -/
def walkProg (k : Kernel) (pid : CInt) (va : U64) : Prog AxiomLine :=
  match k.walkTask pid with
  | none => .events [.say (.taskNotFound pid)] (.done 0)
  | some task =>
    .events [.ref (.take (.task task.addr)), .say .getMm, .say (.running task.addr),
      .say (.taskName task.comm task.pid)] <|
    .loadMm fun mm =>
      match mm with
      | none => .events [.say .noMm, .ref (.drop (.task task.addr))] (.done 0)
      | some mm =>
        -- `mmget`, which does not look at what `mm_users` is
        .events [.ref (.take (.mmUsers mm.addr)), .say (.mm mm.addr), .say .cr3,
          .ref (.take (.mmapLock mm.addr))] <|
        .events (traceLevels k mm va) <|
        .events [.say .rule, .ref (.drop (.mmapLock mm.addr)), .ref (.drop (.mmUsers mm.addr)),
          .ref (.drop (.task task.addr))] (.done 0)

/-- `proof_init` as a program. -/
def proofProg (k : Kernel) (targetPid : CInt) (targetAddr : U64) : Prog ProofLine :=
  .events [.say (.init targetPid targetAddr)] <|
  match k.findVpid targetPid with
  | none => .done esrch
  | some pid =>
    .events [.ref (.take (.pid pid.addr))] <|
    match pid.task with
    | none => .done esrch
    | some task =>
      .events [.ref (.take (.task task.addr))] <|
      .loadMm fun mm =>
        match mm with
        | none => .events [.ref (.drop (.task task.addr))] (.done einval)
        | some mm =>
          -- no `mmget` here
          .events [.ref (.take (.mmapLock mm.addr))] <|
          .events (proofLevels k targetPid mm targetAddr) <|
          .events [.ref (.drop (.mmapLock mm.addr)), .ref (.drop (.task task.addr)),
            .ref (.drop (.pid pid.addr))] (.done 0)

/-- The loop `for_each_vma`, which reads each VMA before it prints its line. -/
def vmaSteps (addr : U64) (vmas : List Vma) : List (LifeStep VmaLine) :=
  (vmas.zip (forEachVma addr vmas 0 false).1).flatMap fun p => [.vma p.1, .event p.2]

/-- `vma_lookup_init` as a program. -/
def vmaProg (k : Kernel) (targetPid : CInt) (targetAddr : U64) : Prog VmaLine :=
  .events [.say .loaded, .say (.targetPid targetPid), .say (.targetAddr targetAddr)] <|
  if targetPid = 0 then .events [.say .noTarget] (.done einval) else
  let pid := k.findVpid targetPid
  .events (.ref (.take .rcu) :: pid.toList.map fun p => .ref (.take (.pid p.addr))) <|
  match pid.bind Pid.task with
  | none => .events [.say (.notFound targetPid), .ref (.drop .rcu)] (.done esrch)
  | some _ =>
    .loadMm fun mm =>
      match mm with
      | none => .events [.say (.noMm targetPid), .ref (.drop .rcu)] (.done einval)
      | some mm =>
        let loop := forEachVma targetAddr mm.vmas 0 false
        .events [.ref (.take (.mmUsers mm.addr)), .ref (.drop .rcu),
          .ref (.take (.mmapLock mm.addr)), .say (.title targetPid), .say .header,
          .say .separator] <|
        .steps (vmaSteps targetAddr mm.vmas) <|
        .events ([.ref (.drop (.mmapLock mm.addr)), .ref (.drop (.mmUsers mm.addr)),
          .say (.total loop.2.1)] ++
          (if targetAddr ≠ 0 then
            if loop.2.2 then [.say (.found targetAddr)] else [.say (.missing targetAddr)]
          else []) ++
          [.say .complete]) (.done 0)

/-! ## The programs are the inspectors -/

/-- The events of a list of steps. -/
def LifeStep.event? : LifeStep α → Option (Event α)
  | event ev => some ev
  | vma _ => none

/-- A list of steps does its events. -/
theorem run_steps (mm : Option Mm) (l : List (LifeStep α)) (p : Prog α) :
    (Prog.steps l p).run mm = (l.filterMap LifeStep.event? ++ (p.run mm).1, (p.run mm).2) := by
  induction l with
  | nil => rfl
  | cons s l ih =>
    have hcons : (Prog.steps (s :: l) p).run mm = (Prog.step s (Prog.steps l p)).run mm := rfl
    rw [hcons]
    cases s with
    | event ev =>
      simp only [Prog.run, ih]
      rfl
    | vma v =>
      simp only [Prog.run, ih]
      rfl

/-- A list of events does them. -/
theorem run_events (mm : Option Mm) (t : List (Event α)) (p : Prog α) :
    (Prog.events t p).run mm = (t ++ (p.run mm).1, (p.run mm).2) := by
  have hevents : (t.map LifeStep.event).filterMap LifeStep.event? = t := by
    rw [List.filterMap_map]
    exact List.filterMap_some
  rw [Prog.events, run_steps, hevents]

/-- The loop over the VMAs does the events of the loop. -/
theorem events_vmaSteps (addr : U64) (vmas : List Vma) :
    (vmaSteps addr vmas).filterMap LifeStep.event? = (forEachVma addr vmas 0 false).1 := by
  have hgen : ∀ (vmas : List Vma) (count : ℕ) (found : Bool),
      ((vmas.zip (forEachVma addr vmas count found).1).flatMap fun p =>
        [LifeStep.vma p.1, LifeStep.event p.2]).filterMap LifeStep.event? =
          (forEachVma addr vmas count found).1 := by
    intro vmas
    induction vmas with
    | nil => intro _ _; rfl
    | cons v vmas ih =>
      intro count found
      have htail := ih (count + 1) (found || v.contains addr)
      simp only [forEachVma, List.zip_cons_cons, List.flatMap_cons, List.filterMap_append, htail]
      rfl
  exact hgen vmas 0 false

/-- Without an exit, the program is `trace_page_table_walk`. -/
theorem run_walkProg (k : Kernel) (pid : CInt) (va : U64) :
    (walkProg k pid va).run (k.walkMm pid) = (tracePageTableWalk k pid va, 0) := by
  unfold walkProg tracePageTableWalk Kernel.walkMm
  cases k.walkTask pid with
  | none => rfl
  | some task =>
    obtain ⟨taddr, comm, tpid, mm⟩ := task
    cases mm with
    | none => rfl
    | some mm =>
      simp only [run_events, Prog.run, Option.bind_some]
      rfl

/-- Without an exit, the program is `proof_init`. -/
theorem run_proofProg (k : Kernel) (pid : CInt) (va : U64) :
    (proofProg k pid va).run (k.findMm pid) = proofInit k pid va := by
  unfold proofProg proofInit Kernel.findMm
  cases k.findVpid pid with
  | none => rfl
  | some p =>
    obtain ⟨paddr, task⟩ := p
    cases task with
    | none => rfl
    | some task =>
      obtain ⟨taddr, comm, tpid, mm⟩ := task
      cases mm with
      | none => rfl
      | some mm =>
        simp only [run_events, Prog.run, Option.bind_some]
        rfl

/-- Without an exit, the program is `vma_lookup_init`. -/
theorem run_vmaProg (k : Kernel) (pid : CInt) (addr : U64) :
    (vmaProg k pid addr).run (k.findMm pid) = vmaLookupInit k pid addr := by
  simp only [vmaProg, vmaLookupInit, Kernel.findMm]
  rcases eq_or_ne pid 0 with hpid | hpid
  · rw [if_pos hpid, if_pos hpid]
    rfl
  rw [if_neg hpid, if_neg hpid]
  cases (k.findVpid pid).bind Pid.task with
  | none => simp [run_events, Prog.run]
  | some task =>
    obtain ⟨taddr, comm, tpid, mm⟩ := task
    cases mm with
    | none => simp [run_events, Prog.run]
    | some mm => simp [run_events, run_steps, events_vmaSteps, Prog.run]

/-! ## The inspector and the process -/

/-- `mm_users` after a step. -/
def LifeStep.users : LifeStep α → ℕ → ℕ
  | event (.ref (.take (.mmUsers _))), n => n + 1
  | event (.ref (.drop (.mmUsers _))), n => n - 1
  | _, n => n

/-- The step is `mmput`. -/
def LifeStep.puts : LifeStep α → Bool
  | event (.ref (.drop (.mmUsers _))) => true
  | _ => false

/-- The step uses the mm: it reads a page-table entry or a VMA, or it is `mmget`. -/
def LifeStep.uses : LifeStep α → Bool
  | event (.read _ _ _) => true
  | event (.ref (.take (.mmUsers _))) => true
  | vma _ => true
  | _ => false

/-- The next step of the program uses the mm. -/
def Prog.uses : Prog α → Bool
  | step s _ => s.uses
  | _ => false

/-- The program uses no mm any more, when `task->mm` is NULL. -/
def Prog.Quiet : Prog α → Prop
  | done _ => True
  | step s next => s.uses = false ∧ next.Quiet
  | loadMm next => (next none).Quiet

instance Prog.decidableQuiet : ∀ p : Prog α, Decidable p.Quiet
  | done _ => .isTrue trivial
  | step s next =>
    have := next.decidableQuiet
    inferInstanceAs (Decidable (s.uses = false ∧ next.Quiet))
  | loadMm next => (next none).decidableQuiet

/-- An inspector that is running, `task->mm` of the process that it looks at, and `mm_users` of the
mm. -/
structure Life (α : Type) where
  prog : Prog α
  mm : Option Mm
  users : ℕ

/-- The inspector starts. The process holds a reference to its mm, and there may be others. -/
def Life.start (prog : Prog α) (mm : Option Mm) (others : ℕ) : Life α := ⟨prog, mm, 1 + others⟩

/-- The inspector has returned. -/
def Life.Finished (c : Life α) : Prop := ∃ ret, c.prog = .done ret

/-- Who takes a step. -/
inductive LifeActor where
  | inspector
  | process
  deriving DecidableEq, Repr

/-- A step of the inspector, or the exit of the process. -/
def lifeStep : LifeActor → Life α → Option (Life α)
  | .inspector, ⟨.done _, _, _⟩ => none
  | .inspector, ⟨.step s next, mm, users⟩ => some ⟨next, mm, s.users users⟩
  | .inspector, ⟨.loadMm next, mm, users⟩ => some ⟨next mm, mm, users⟩
  | .process, ⟨_, none, _⟩ => none
  | .process, ⟨prog, some _, users⟩ => some ⟨prog, none, users - 1⟩

/-- The inspector uses the mm only while `mm_users` is positive. -/
def AliveWhenUsed (a : LifeActor) (c : Life α) : Prop :=
  a = .inspector → c.prog.uses = true → 0 < c.users

/-- The process exits only while there is another reference, or the inspector uses no mm any
more. -/
def ExitCovered (a : LifeActor) (c : Life α) : Prop :=
  a = .process → 1 < c.users ∨ c.prog.Quiet

instance (a : LifeActor) (c : Life α) : Decidable (AliveWhenUsed a c) :=
  inferInstanceAs (Decidable (a = .inspector → c.prog.uses = true → 0 < c.users))

instance (a : LifeActor) (c : Life α) : Decidable (ExitCovered a c) :=
  inferInstanceAs (Decidable (a = .process → 1 < c.users ∨ c.prog.Quiet))

/-! ## What keeps the mm alive -/

/-- After the exit, with `users` references left, the program uses the mm only while there are
some. -/
def Prog.SafeAfterExit : ℕ → Prog α → Prop
  | _, done _ => True
  | users, step s next => (s.uses = true → 0 < users) ∧ next.SafeAfterExit (s.users users)
  | users, loadMm next => (next none).SafeAfterExit users

/-- The program, which holds `own` references, puts only what it holds, and uses no mm after it put
the last. -/
def Prog.PutsLast : ℕ → Prog α → Prop
  | _, done _ => True
  | own, step s next =>
    (s.puts = true → 0 < own ∧ (own = 1 → next.Quiet)) ∧ next.PutsLast (s.users own)
  | own, loadMm next => ∀ mm, (next mm).PutsLast own

/-- A step changes the number of all references as it changes that of the own ones. -/
theorem LifeStep.users_add {s : LifeStep α} {own : ℕ} (h : s.puts = true → 0 < own) (others : ℕ) :
    s.users (own + others) = s.users own + others := by
  unfold LifeStep.users LifeStep.puts at *
  split
  · omega
  · have hown := h rfl
    omega
  · rfl

/-- The last own reference is lost by `mmput`. -/
theorem LifeStep.puts_of_users_eq_zero {s : LifeStep α} {own : ℕ} (hown : 0 < own)
    (h : s.users own = 0) : s.puts = true ∧ own = 1 := by
  unfold LifeStep.users at h
  split at h
  · omega
  · exact ⟨rfl, by omega⟩
  · omega

/-- A program that uses no mm is safe. -/
theorem Prog.Quiet.safeAfterExit {p : Prog α} (h : p.Quiet) (users : ℕ) :
    p.SafeAfterExit users := by
  induction p generalizing users with
  | done ret => trivial
  | step s next ih =>
    refine ⟨fun huses => ?_, ih h.2 _⟩
    rw [h.1] at huses
    exact absurd huses (by decide)
  | loadMm next ih => exact ih none h users

/-- A program that puts last is safe after the exit, if there is another reference. -/
theorem Prog.PutsLast.safeAfterExit {p : Prog α} {own : ℕ} (h : p.PutsLast own) {others : ℕ}
    (hpos : 0 < own + others) : p.SafeAfterExit (own + others) := by
  induction p generalizing own with
  | done ret => trivial
  | step s next ih =>
    obtain ⟨hput, hnext⟩ := h
    refine ⟨fun _ => hpos, ?_⟩
    rw [LifeStep.users_add (fun hs => (hput hs).1)]
    by_cases hleft : 0 < s.users own + others
    · exact ih hnext hleft
    · -- the last reference is put
      obtain ⟨hputs, hown⟩ : s.puts = true ∧ own = 1 :=
        LifeStep.puts_of_users_eq_zero (by omega) (by omega)
      exact ((hput hputs).2 hown).safeAfterExit _
  | loadMm next ih => exact ih none (h none) hpos

/-- What holds before every step. While the process is alive, its reference and the others are there
besides those of the inspector, and after its exit the rest of the program is safe. -/
def LifeInv (others : ℕ) (c : Life α) : Prop :=
  match c.mm with
  | some _ => ∃ own, c.users = own + 1 + others ∧ c.prog.PutsLast own
  | none => c.prog.SafeAfterExit c.users

/-- A covered step keeps the invariant. -/
theorem lifeInv_step {others : ℕ} {a : LifeActor} {c c' : Life α} (hstep : lifeStep a c = some c')
    (hinv : LifeInv others c) (hcovered : ExitCovered a c) : LifeInv others c' := by
  obtain ⟨prog, mm, users⟩ := c
  cases a with
  | inspector =>
    cases prog with
    | done ret => cases hstep
    | step s next =>
      cases hstep
      cases mm with
      | none => exact hinv.2
      | some mm =>
        -- the count changes as the own references do
        obtain ⟨own, husers, hput, hnext⟩ := hinv
        refine ⟨s.users own, ?_, hnext⟩
        have hadd := LifeStep.users_add (fun hs => (hput hs).1) (1 + others)
        simp only at husers ⊢
        rw [husers, Nat.add_assoc, hadd, Nat.add_assoc]
    | loadMm next =>
      cases hstep
      cases mm with
      | none => exact hinv
      | some mm =>
        obtain ⟨own, husers, hnext⟩ := hinv
        exact ⟨own, husers, hnext (some mm)⟩
  | process =>
    cases mm with
    | none => cases hstep
    | some mm =>
      cases hstep
      obtain ⟨own, husers, hput⟩ := hinv
      simp only at husers
      -- the exit drops the reference of the process, and leaves the others
      have hleft : users - 1 = own + others := by omega
      unfold LifeInv
      simp only [hleft]
      rcases hcovered rfl with hmore | hquiet
      · exact hput.safeAfterExit (by simp only at hmore; omega)
      · exact Prog.Quiet.safeAfterExit hquiet _

/-- The invariant keeps the mm alive when it is used. -/
theorem aliveWhenUsed_of_lifeInv {others : ℕ} {a : LifeActor} {c : Life α}
    (hinv : LifeInv others c) : AliveWhenUsed a c := by
  obtain ⟨prog, mm, users⟩ := c
  intro _ huses
  cases mm with
  | some mm =>
    obtain ⟨own, husers, -⟩ := hinv
    simp only at husers ⊢
    omega
  | none =>
    cases prog with
    | done ret => cases huses
    | step s next => exact hinv.1 huses
    | loadMm next => cases huses

/-- An inspector that puts last uses the mm only while it is alive, in every interleaving in which
the exit is covered. -/
theorem aliveWhenUsed_of_exitCovered {p : Prog α} (h : p.PutsLast 0) (mm : Option Mm) (others : ℕ)
    (sched : List LifeActor)
    (hcovered : Along lifeStep ExitCovered sched (Life.start p mm others)) :
    Along lifeStep AliveWhenUsed sched (Life.start p mm others) := by
  have hstart : LifeInv others (Life.start p mm others) := by
    cases mm with
    | some mm => exact ⟨0, by simp [Life.start], h⟩
    | none =>
      have hsafe : p.SafeAfterExit (0 + (1 + others)) := h.safeAfterExit (by omega)
      rwa [Nat.zero_add] at hsafe
  exact Schedule.along_of_invariant (fun a c c' hstep hinv hc => lifeInv_step hstep hinv hc)
    (fun a c c' _ hinv _ => aliveWhenUsed_of_lifeInv hinv) hstart hcovered

/-- After the exit of the last reference, an inspector that still has a use of the mm cannot finish
without it. -/
theorem not_finished_of_dead {p : Prog α} (hquiet : ¬ p.Quiet) {sched : List LifeActor}
    (halive : Along lifeStep AliveWhenUsed sched ⟨p, none, 0⟩) :
    ¬ (exec lifeStep sched ⟨p, none, 0⟩).Finished := by
  induction sched generalizing p with
  | nil =>
    rintro ⟨ret, hret⟩
    simp only [exec] at hret
    subst hret
    exact hquiet trivial
  | cons a sched ih =>
    obtain ⟨hhead, htail⟩ := halive
    cases a with
    | process => exact ih hquiet htail
    | inspector =>
      cases p with
      | done ret => exact absurd trivial hquiet
      | loadMm next => exact ih hquiet htail
      | step s next =>
        have huses : s.uses = false := by
          by_contra huses
          exact absurd (hhead rfl rfl (Bool.not_eq_false _ ▸ huses)) (Nat.lt_irrefl 0)
        have hzero : s.users 0 = 0 := by
          unfold LifeStep.users
          split
          · cases huses
          · rfl
          · rfl
        have hstep : turn lifeStep .inspector ⟨.step s next, none, 0⟩ = ⟨next, none, 0⟩ := by
          simp only [turn, lifeStep, Option.getD_some, hzero]
        unfold exec
        rw [hstep] at htail ⊢
        exact ih (fun hnext => hquiet ⟨huses, hnext⟩) htail

/-- In an interleaving in which the inspector finishes, the exit is covered if the mm is alive
whenever it is used. -/
theorem exitCovered_of_aliveWhenUsed {c : Life α} {sched : List LifeActor}
    (hfinished : (exec lifeStep sched c).Finished) (halive : Along lifeStep AliveWhenUsed sched c) :
    Along lifeStep ExitCovered sched c := by
  induction sched generalizing c with
  | nil => trivial
  | cons a sched ih =>
    obtain ⟨-, htail⟩ := halive
    refine ⟨?_, ih hfinished htail⟩
    obtain ⟨prog, mm, users⟩ := c
    rintro hsome rfl
    cases mm with
    | none => cases hsome
    | some mm =>
      -- an exit that is not covered drops the last reference, with a use of the mm to come
      by_contra hcovered
      obtain ⟨hlast, hquiet⟩ := not_or.mp hcovered
      have husers : users - 1 = 0 := by
        simp only at hlast
        omega
      have hturn : turn lifeStep .process ⟨prog, some mm, users⟩ = ⟨prog, none, 0⟩ := by
        simp only [turn, lifeStep, Option.getD_some, husers]
      unfold exec at hfinished
      rw [hturn] at htail hfinished
      exact not_finished_of_dead hquiet htail hfinished

/-! ## The three inspectors put last -/

/-- The step does not touch `mm_users`. -/
def LifeStep.neutral : LifeStep α → Bool
  | event (.ref (.take (.mmUsers _))) => false
  | event (.ref (.drop (.mmUsers _))) => false
  | _ => true

/-- Such a step does not change `mm_users`. -/
theorem LifeStep.users_of_neutral {s : LifeStep α} (h : s.neutral = true) (n : ℕ) :
    s.users n = n := by
  unfold LifeStep.users
  split
  · cases h
  · cases h
  · rfl

/-- Such a step is not `mmput`. -/
theorem LifeStep.puts_of_neutral {s : LifeStep α} (h : s.neutral = true) : s.puts = false := by
  unfold LifeStep.puts
  split
  · cases h
  · rfl

/-- A program that returns puts last. -/
theorem Prog.putsLast_done (ret : ℤ) (own : ℕ) : (.done ret : Prog α).PutsLast own := trivial

/-- A program that returns uses no mm any more. -/
theorem Prog.quiet_done (ret : ℤ) : (.done ret : Prog α).Quiet := trivial

/-- Steps that do not touch `mm_users` may come first. -/
theorem Prog.PutsLast.steps {p : Prog α} {own : ℕ} (h : p.PutsLast own) {l : List (LifeStep α)}
    (hl : ∀ s ∈ l, s.neutral = true) : (Prog.steps l p).PutsLast own := by
  induction l with
  | nil => exact h
  | cons s l ih =>
    have hs := hl s (by simp)
    have htail := ih fun s' hs' => hl s' (by simp [hs'])
    refine ⟨fun hputs => ?_, ?_⟩
    · rw [LifeStep.puts_of_neutral hs] at hputs
      cases hputs
    · rw [LifeStep.users_of_neutral hs]
      exact htail

/-- Events that do not touch `mm_users` may come first. -/
theorem Prog.PutsLast.events {p : Prog α} {own : ℕ} (h : p.PutsLast own) {t : List (Event α)}
    (ht : ∀ ev ∈ t, (LifeStep.event ev).neutral = true) : (Prog.events t p).PutsLast own :=
  h.steps (List.forall_mem_map.mpr ht)

/-- A program that does nothing else and returns puts last. -/
theorem Prog.putsLast_events {t : List (Event α)} (ret : ℤ) (own : ℕ)
    (ht : ∀ ev ∈ t, (LifeStep.event ev).neutral = true) :
    (Prog.events t (.done ret)).PutsLast own :=
  (Prog.putsLast_done ret own).events ht

/-- `mmget` gives the program a reference. -/
theorem Prog.PutsLast.mmget {p : Prog α} {own : ℕ} (h : p.PutsLast (own + 1)) (mm : U64) :
    (Prog.step (.event (.ref (.take (.mmUsers mm)))) p).PutsLast own := by
  refine ⟨fun hputs => ?_, h⟩
  cases hputs

/-- `mmput` takes the reference away from a program that uses no mm any more. -/
theorem Prog.PutsLast.mmput {p : Prog α} {own : ℕ} (h : p.PutsLast own) (hquiet : p.Quiet)
    (mm : U64) : (Prog.step (.event (.ref (.drop (.mmUsers mm)))) p).PutsLast (own + 1) :=
  ⟨fun _ => ⟨Nat.succ_pos own, fun _ => hquiet⟩, h⟩

/-- Events that do not use the mm may come first. -/
theorem Prog.Quiet.events {p : Prog α} (h : p.Quiet) {t : List (Event α)}
    (ht : ∀ ev ∈ t, (LifeStep.event ev).uses = false) : (Prog.events t p).Quiet := by
  induction t with
  | nil => exact h
  | cons ev t ih => exact ⟨ht ev (by simp), ih fun ev' hev' => ht ev' (by simp [hev'])⟩

/-- Events that are no operations on resources do not touch `mm_users`. -/
theorem neutral_of_refs {t : List (Event α)} (h : refs t = []) :
    ∀ ev ∈ t, (LifeStep.event ev).neutral = true := by
  intro ev hev
  have href := List.filterMap_eq_nil_iff.mp h ev hev
  cases ev with
  | ref op => cases href
  | read l ptr e => rfl
  | ram kva bytes => rfl
  | say line => rfl

/-- The loop over the VMAs does not touch `mm_users`. -/
theorem neutral_vmaSteps (addr : U64) (vmas : List Vma) :
    ∀ s ∈ vmaSteps addr vmas, s.neutral = true := by
  intro s hs
  have hevents := neutral_of_refs (refs_forEachVma addr vmas 0 false)
  obtain ⟨p, hp, hs⟩ := List.mem_flatMap.mp hs
  rcases List.mem_pair.mp hs with rfl | rfl
  · rfl
  · exact hevents p.2 (List.of_mem_zip hp).2

/-- `trace_page_table_walk` puts last. -/
theorem putsLast_walkProg (k : Kernel) (pid : CInt) (va : U64) :
    (walkProg k pid va).PutsLast 0 := by
  unfold walkProg
  cases k.walkTask pid with
  | none =>
    exact Prog.putsLast_events _ _ (by simp [LifeStep.neutral])
  | some task =>
    refine Prog.PutsLast.events ?_ (by simp [LifeStep.neutral])
    intro mm
    cases mm with
    | none =>
      exact Prog.putsLast_events _ _ (by simp [LifeStep.neutral])
    | some mm =>
      have hlevels := neutral_of_refs (refs_traceLevels k mm va)
      have hputs : (Prog.events [.ref (.drop (.task task.addr))]
          (.done 0 : Prog AxiomLine)).PutsLast 0 :=
        Prog.putsLast_events 0 0 (by simp [LifeStep.neutral])
      have hput := hputs.mmput ((Prog.quiet_done 0).events (by simp [LifeStep.uses])) mm.addr
      -- the reference is held while the levels are read
      have hunlock := hput.events (t := [.say .rule, .ref (.drop (.mmapLock mm.addr))])
        (by simp [LifeStep.neutral])
      have hlock := (hunlock.events hlevels).events
        (t := [.say (.mm mm.addr), .say .cr3, .ref (.take (.mmapLock mm.addr))])
        (by simp [LifeStep.neutral])
      exact hlock.mmget mm.addr

/-- `proof_init` takes no reference, and so puts none. -/
theorem putsLast_proofProg (k : Kernel) (pid : CInt) (va : U64) :
    (proofProg k pid va).PutsLast 0 := by
  unfold proofProg
  refine Prog.PutsLast.events ?_ (by simp [LifeStep.neutral])
  cases k.findVpid pid with
  | none => trivial
  | some p =>
    refine Prog.PutsLast.events ?_ (by simp [LifeStep.neutral])
    cases p.task with
    | none => trivial
    | some task =>
      refine Prog.PutsLast.events ?_ (by simp [LifeStep.neutral])
      intro mm
      cases mm with
      | none =>
        exact Prog.putsLast_events _ _ (by simp [LifeStep.neutral])
      | some mm =>
        have hlevels := neutral_of_refs (refs_proofLevels k pid mm va)
        have hdone : (.done 0 : Prog ProofLine).PutsLast 0 := Prog.putsLast_done 0 0
        -- no reference is held at any point
        have hunlock := hdone.events (t := [.ref (.drop (.mmapLock mm.addr)),
          .ref (.drop (.task task.addr)), .ref (.drop (.pid p.addr))]) (by simp [LifeStep.neutral])
        exact (hunlock.events hlevels).events (by simp [LifeStep.neutral])

/-- `vma_lookup_init` puts last. -/
theorem putsLast_vmaProg (k : Kernel) (pid : CInt) (addr : U64) :
    (vmaProg k pid addr).PutsLast 0 := by
  simp only [vmaProg]
  refine Prog.PutsLast.events ?_ (by simp [LifeStep.neutral])
  rcases eq_or_ne pid 0 with hpid | hpid
  · rw [if_pos hpid]
    exact Prog.putsLast_events _ _ (by simp [LifeStep.neutral])
  rw [if_neg hpid]
  refine Prog.PutsLast.events ?_ (by simp [LifeStep.neutral])
  cases (k.findVpid pid).bind Pid.task with
  | none =>
    exact Prog.putsLast_events _ _ (by simp [LifeStep.neutral])
  | some task =>
    intro mm
    cases mm with
    | none =>
      exact Prog.putsLast_events _ _ (by simp [LifeStep.neutral])
    | some mm =>
      have hsays : ∀ ev ∈ (.say (.total (forEachVma addr mm.vmas 0 false).2.1) ::
          (if addr ≠ 0 then
            if (forEachVma addr mm.vmas 0 false).2.2 then [.say (.found addr)]
            else [.say (.missing addr)]
          else []) ++ [.say .complete] : List (Event VmaLine)), ∃ line, ev = .say line := by
        split
        · split <;> simp
        · simp
      have hputs := (Prog.putsLast_done 0 0).events fun ev hev => by
        obtain ⟨line, rfl⟩ := hsays ev hev
        rfl
      have hquiet := (Prog.quiet_done 0).events fun ev hev => by
        obtain ⟨line, rfl⟩ := hsays ev hev
        rfl
      have hput := hputs.mmput hquiet mm.addr
      -- the reference is held while the VMAs are read
      have hunlock := hput.events (t := [.ref (.drop (.mmapLock mm.addr))])
        (by simp [LifeStep.neutral])
      have hloop := hunlock.steps (neutral_vmaSteps addr mm.vmas)
      have hlock := hloop.events (t := [.ref (.drop .rcu), .ref (.take (.mmapLock mm.addr)),
        .say (.title pid), .say .header, .say .separator]) (by simp [LifeStep.neutral])
      exact hlock.mmget mm.addr

/-- Along the schedule, the mm is alive whenever the inspector uses it if the exit is covered, and
in a run in which the inspector finishes, only then. -/
def Life.AliveIffCovered (sched : List LifeActor) (c : Life α) : Prop :=
  (Along lifeStep ExitCovered sched c → Along lifeStep AliveWhenUsed sched c) ∧
    ((exec lifeStep sched c).Finished →
      Along lifeStep AliveWhenUsed sched c → Along lifeStep ExitCovered sched c)

/-- In every interleaving, the three inspectors use the mm only while it is alive if the process
exits while there is another reference to `mm_users`, or when the inspector uses the mm no more,
and those that finish only then. -/
theorem inspectors_aliveWhenUsed (k : Kernel) (pid : CInt) (va : U64) (others : ℕ)
    (sched : List LifeActor) :
    (Life.start (walkProg k pid va) (k.walkMm pid) others).AliveIffCovered sched ∧
    (Life.start (proofProg k pid va) (k.findMm pid) others).AliveIffCovered sched ∧
    (Life.start (vmaProg k pid va) (k.findMm pid) others).AliveIffCovered sched := by
  refine ⟨⟨?_, exitCovered_of_aliveWhenUsed⟩, ⟨?_, exitCovered_of_aliveWhenUsed⟩, ?_,
    exitCovered_of_aliveWhenUsed⟩
  · exact aliveWhenUsed_of_exitCovered (putsLast_walkProg k pid va) _ others sched
  · exact aliveWhenUsed_of_exitCovered (putsLast_proofProg k pid va) _ others sched
  · exact aliveWhenUsed_of_exitCovered (putsLast_vmaProg k pid va) _ others sched

/-- `pageEntries`, with an inspector that is not the process it looks at. -/
def Kernel.other : Kernel :=
  { Kernel.ofEntries pageEntries with
    current := ⟨0xFFFF888005000000, "insmod", 9, none⟩ }

/-- The process exits right after `mmget`, or when `proof_init` has returned. -/
theorem inspectors_aliveWhenUsed_other :
    Along lifeStep AliveWhenUsed
      (.replicate 6 .inspector ++ .process :: .replicate 20 .inspector)
      (Life.start (walkProg .other 7 0x1234) (Kernel.other.walkMm 7) 0) ∧
    Along lifeStep AliveWhenUsed (.replicate 20 .inspector ++ [.process])
      (Life.start (proofProg .other 7 0x1234) (Kernel.other.findMm 7) 0) ∧
    Along lifeStep AliveWhenUsed
      (.replicate 7 .inspector ++ .process :: .replicate 20 .inspector)
      (Life.start (vmaProg .other 7 0x1234) (Kernel.other.findMm 7) 0) :=
  ⟨(inspectors_aliveWhenUsed .other 7 0x1234 0 _).1.1 (by decide),
    (inspectors_aliveWhenUsed .other 7 0x1234 0 _).2.1.1 (by decide),
    (inspectors_aliveWhenUsed .other 7 0x1234 0 _).2.2.1 (by decide)⟩

/-- The process exits between the load of `task->mm` and `mmget`, or before `proof_init` reads the
first entry. -/
theorem inspectors_not_aliveWhenUsed :
    ¬ Along lifeStep AliveWhenUsed (.replicate 5 .inspector ++ [.process, .inspector])
      (Life.start (walkProg .other 7 0x1234) (Kernel.other.walkMm 7) 0) ∧
    ¬ Along lifeStep AliveWhenUsed (.replicate 5 .inspector ++ [.process, .inspector])
      (Life.start (proofProg .other 7 0x1234) (Kernel.other.findMm 7) 0) ∧
    ¬ Along lifeStep AliveWhenUsed (.replicate 6 .inspector ++ [.process, .inspector])
      (Life.start (vmaProg .other 7 0x1234) (Kernel.other.findMm 7) 0) := by
  decide

end KernelPortfolio
