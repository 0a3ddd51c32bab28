import KernelPortfolio.Inspect.MmAxiom

/-!
# The numbers of a process, and the shortcut of `trace_page_table_walk`

A process has a number in its own pid namespace, and one in each namespace above. `find_vpid` takes
a number as one of the caller's namespace, which is what `getpid()` returns in
`mm_exercise_user.c`. The shortcut of the walk compares it with `current->pid`, the number in the
initial namespace. `walkTask_selectsDenoted_iff` says when the two agree.
-/

namespace KernelPortfolio

/-- `struct pid_namespace`: the initial one, or a child of another. -/
inductive PidNs where
  | init
  | child (parent : PidNs) (i : ℕ)
  deriving DecidableEq, Repr

/-- The namespace, and those above it. -/
def PidNs.path : PidNs → List PidNs
  | init => [init]
  | child parent i => child parent i :: parent.path

/-- A namespace is on its own path. -/
theorem PidNs.mem_path (ns : PidNs) : ns ∈ ns.path := by
  cases ns with
  | init => exact List.mem_singleton_self _
  | child parent i => exact List.mem_cons_self ..

/-- The initial namespace is above every other. -/
theorem PidNs.init_mem_path (ns : PidNs) : .init ∈ ns.path := by
  induction ns with
  | init => exact List.mem_singleton_self _
  | child parent i ih => exact List.mem_cons_of_mem _ ih

/-- A `struct pid` with its namespace, and its numbers there and in the namespaces above. -/
structure NumberedPid where
  pid : Pid
  ns : PidNs
  nr : PidNs → CInt

/-- The number in a namespace, if there is one. -/
def NumberedPid.nrIn (p : NumberedPid) (ns : PidNs) : Option CInt :=
  if ns ∈ p.ns.path then some (p.nr ns) else none

/-- The number in the own namespace. -/
@[simp]
theorem NumberedPid.nrIn_ns (p : NumberedPid) : p.nrIn p.ns = some (p.nr p.ns) :=
  if_pos p.ns.mem_path

/-- The number in the initial namespace. -/
@[simp]
theorem NumberedPid.nrIn_init (p : NumberedPid) : p.nrIn .init = some (p.nr .init) :=
  if_pos p.ns.init_mem_path

/-- The processes, with their numbers. -/
structure PidTable where
  pids : List NumberedPid
  /-- A number of a namespace belongs to one `struct pid`. -/
  unique : ∀ p ∈ pids, ∀ q ∈ pids, ∀ ns n, p.nrIn ns = some n → q.nrIn ns = some n → p = q
  /-- `task->pid` is the number in the initial namespace. -/
  global : ∀ p ∈ pids, ∀ task ∈ p.pid.task, task.pid = p.nr .init

namespace PidTable

/-- `find_pid_ns`. -/
def findPidNs (t : PidTable) (n : CInt) (ns : PidNs) : Option NumberedPid :=
  t.pids.find? fun p => p.nrIn ns = some n

/-- In the namespace, the number denotes the task. -/
def Denotes (t : PidTable) (ns : PidNs) (n : CInt) (task : Task) : Prop :=
  ∃ p ∈ t.pids, p.nrIn ns = some n ∧ p.pid.task = some task

/-- The lookup finds the `struct pid` with the number. -/
theorem findPidNs_eq_some_iff {t : PidTable} {n : CInt} {ns : PidNs} {p : NumberedPid} :
    t.findPidNs n ns = some p ↔ p ∈ t.pids ∧ p.nrIn ns = some n := by
  constructor
  · intro h
    exact ⟨List.mem_of_find?_eq_some h, of_decide_eq_true (List.find?_some h :)⟩
  · rintro ⟨hp, hnr⟩
    cases hfind : t.findPidNs n ns with
    | none =>
      have hno := List.find?_eq_none.mp hfind p hp
      exact absurd (decide_eq_true hnr) hno
    | some q =>
      have hq : q.nrIn ns = some n := of_decide_eq_true (List.find?_some hfind :)
      rw [t.unique q (List.mem_of_find?_eq_some hfind) p hp ns n hq hnr]

/-- The lookup, and `get_pid_task`, find the task that the number denotes. -/
theorem findPidNs_task_eq_some_iff {t : PidTable} {n : CInt} {ns : PidNs} {task : Task} :
    ((t.findPidNs n ns).bind fun p => p.pid.task) = some task ↔ t.Denotes ns n task := by
  unfold Denotes
  simp only [Option.bind_eq_some_iff, findPidNs_eq_some_iff, and_assoc]

end PidTable

/-- A process that calls the module. -/
structure Caller (t : PidTable) where
  self : NumberedPid
  task : Task
  mem : self ∈ t.pids
  attached : self.pid.task = some task

namespace Caller

variable {t : PidTable}

/-- What the module sees when the process calls it: `find_vpid` looks in the namespace of the
caller. -/
def kernel (c : Caller t) (k : Kernel) : Kernel :=
  { k with
    current := c.task
    findVpid n := (t.findPidNs n c.self.ns).map NumberedPid.pid }

/-- `getpid()`, for a process with one thread. -/
def getpid (c : Caller t) : CInt := c.self.nr c.self.ns

/-- `current->pid` is the number of the caller in the initial namespace. -/
theorem current_pid (c : Caller t) (k : Kernel) : (c.kernel k).current.pid = c.self.nr .init :=
  t.global c.self c.mem c.task c.attached

/-- The `struct pid` of the caller is the only one that its task is attached to. -/
theorem self_unique (c : Caller t) {p : NumberedPid} (hp : p ∈ t.pids)
    (htask : p.pid.task = some c.task) : p = c.self := by
  have hnr : p.nr .init = c.self.nr .init :=
    calc p.nr .init = c.task.pid := (t.global p hp c.task htask).symm
      _ = c.self.nr .init := t.global c.self c.mem c.task c.attached
  exact t.unique p hp c.self c.mem .init (p.nr .init) p.nrIn_init (hnr ▸ c.self.nrIn_init)

/-- In its own namespace, the caller is denoted by `getpid()` alone. -/
theorem denotes_task_iff (c : Caller t) (n : CInt) :
    t.Denotes c.self.ns n c.task ↔ c.getpid = n := by
  constructor
  · rintro ⟨p, hp, hnr, htask⟩
    rw [c.self_unique hp htask, NumberedPid.nrIn_ns] at hnr
    exact Option.some.inj hnr
  · rintro rfl
    exact ⟨c.self, c.mem, c.self.nrIn_ns, c.attached⟩

/-- Two tasks that a number denotes are the same. -/
theorem denotes_unique {ns : PidNs} {n : CInt} {task task' : Task} (h : t.Denotes ns n task)
    (h' : t.Denotes ns n task') : task = task' := by
  rw [← PidTable.findPidNs_task_eq_some_iff] at h h'
  exact Option.some.inj (h.symm.trans h')

/-- The task that the walk selects: the caller for its number in the initial namespace, and else
the one that the number denotes in its own. -/
theorem walkTask_eq (c : Caller t) (k : Kernel) (n : CInt) :
    (c.kernel k).walkTask n =
      if n = c.task.pid then some c.task
      else (t.findPidNs n c.self.ns).bind fun p => p.pid.task := by
  unfold Kernel.walkTask kernel
  rw [Option.bind_map]
  rfl

/-- The walk selects the task that the number denotes in the namespace of the caller, and reports
that there is none exactly when it denotes none. -/
structure SelectsDenoted (c : Caller t) (k : Kernel) (n : CInt) (va : U64) : Prop where
  selects : ∀ task, (c.kernel k).walkTask n = some task ↔ t.Denotes c.self.ns n task
  notFound : tracePageTableWalk (c.kernel k) n va = [.say (.taskNotFound n)] ↔
    ∀ task, ¬ t.Denotes c.self.ns n task

/-- The walk reports that there is no task when it selects none. -/
theorem trace_eq_notFound_iff (k : Kernel) (n : CInt) (va : U64) :
    tracePageTableWalk k n va = [.say (.taskNotFound n)] ↔ k.walkTask n = none := by
  unfold tracePageTableWalk
  cases k.walkTask n with
  | none => simp
  | some task => simp

/-- The walk is right about a number that the shortcut is right about. -/
theorem selectsDenoted (c : Caller t) (k : Kernel) {n : CInt} (va : U64)
    (h : n = c.task.pid → c.getpid = n) : c.SelectsDenoted k n va := by
  have hselects : ∀ task, (c.kernel k).walkTask n = some task ↔ t.Denotes c.self.ns n task := by
    intro task
    rcases eq_or_ne n c.task.pid with hn | hn
    · -- the shortcut selects the caller, which the number denotes
      have hself := (c.denotes_task_iff n).mpr (h hn)
      rw [c.walkTask_eq, if_pos hn, Option.some.injEq]
      exact ⟨fun heq => heq ▸ hself, denotes_unique hself⟩
    · rw [c.walkTask_eq, if_neg hn, PidTable.findPidNs_task_eq_some_iff]
  refine ⟨hselects, ?_⟩
  rw [trace_eq_notFound_iff, Option.eq_none_iff_forall_ne_some]
  exact forall_congr' fun task => not_congr (hselects task)

/-- In the initial namespace the walk is right about every number. -/
theorem selectsDenoted_of_init (c : Caller t) (hc : c.self.ns = .init) (k : Kernel) (n : CInt)
    (va : U64) : c.SelectsDenoted k n va := by
  apply c.selectsDenoted
  rintro rfl
  unfold getpid
  rw [hc]
  exact (c.current_pid k).symm

/-- In every namespace it is right about `getpid()`, the argument of `mm_exercise_user.c`. -/
theorem selectsDenoted_getpid (c : Caller t) (k : Kernel) (va : U64) :
    c.SelectsDenoted k c.getpid va :=
  c.selectsDenoted k va fun _ => rfl

end Caller

/-- The walk selects the task that the number denotes, exactly when the number is not `current->pid`
or is also the number of the caller in its own namespace. -/
theorem walkTask_selectsDenoted_iff {t : PidTable} (c : Caller t) (k : Kernel) (n : CInt)
    (va : U64) : c.SelectsDenoted k n va ↔ (n = c.task.pid → c.getpid = n) := by
  constructor
  · rintro ⟨hselects, -⟩ hn
    -- the shortcut does not look the number up
    have hself : (c.kernel k).walkTask n = some c.task := by rw [c.walkTask_eq, if_pos hn]
    exact (c.denotes_task_iff n).mp ((hselects c.task).mp hself)
  · exact c.selectsDenoted k va

/-! ## A container whose numbers collide with those outside -/

/-- In the first child of the initial namespace. -/
def containerNs : PidNs := .child .init 1

/-- The caller, number 7 outside and 2 in the container. -/
def containerCaller : NumberedPid where
  pid := ⟨0xFFFF888004000000, some .sample⟩
  ns := containerNs
  nr ns := if ns = .init then 7 else 2

/-- Another process, number 9 outside and 7 in the container. -/
def containerOther : NumberedPid where
  pid := ⟨0xFFFF888004001000, some ⟨0xFFFF888002001000, "b.out", 9, none⟩⟩
  ns := containerNs
  nr ns := if ns = .init then 9 else 7

/-- The two processes. -/
def containerTable : PidTable where
  pids := [containerCaller, containerOther]
  unique := by
    have hne : ∀ ns n, containerCaller.nrIn ns = some n → containerOther.nrIn ns ≠ some n := by
      intro ns n h h'
      rw [NumberedPid.nrIn, Option.ite_none_right_eq_some] at h h'
      have heq : containerCaller.nr ns = containerOther.nr ns :=
        Option.some.inj (h.2.trans h'.2.symm)
      unfold containerCaller containerOther at heq
      rcases eq_or_ne ns .init with hns | hns <;> simp [hns] at heq
    intro p hp q hq ns n h h'
    simp only [List.mem_cons, List.not_mem_nil, or_false] at hp hq
    rcases hp with rfl | rfl <;> rcases hq with rfl | rfl
    · rfl
    · exact absurd h' (hne ns n h)
    · exact absurd h (hne ns n h')
    · rfl
  global := by
    intro p hp task htask
    simp only [List.mem_cons, List.not_mem_nil, or_false] at hp
    rcases hp with rfl | rfl <;> cases htask <;> rfl

/-- The caller in the container asks for number 7, and gets itself. -/
theorem walkTask_not_selectsDenoted :
    ¬ (Caller.mk (t := containerTable) containerCaller .sample (List.mem_cons_self ..) rfl
      ).SelectsDenoted (.ofEntries []) 7 0x1234 := by
  rintro ⟨hselects, -⟩
  obtain ⟨p, hp, hnr, htask⟩ := (hselects .sample).mp rfl
  simp only [containerTable, List.mem_cons, List.not_mem_nil, or_false] at hp
  rcases hp with rfl | rfl
  · exact absurd hnr (by decide)
  · exact absurd htask (by decide)

end KernelPortfolio
