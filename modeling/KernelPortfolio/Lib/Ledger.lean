import Mathlib.Algebra.BigOperators.Group.List.Basic
import Mathlib.Algebra.Group.Pi.Basic
import Mathlib.Algebra.GroupWithZero.Nat
import Mathlib.Data.List.Count
import Mathlib.Tactic.Common

/-!
# Ledgers of counted resources

A program takes and drops references to resources (objects with a reference count, locks), and a
ledger counts, for each resource, the references that are held. `run` is the effect of a list of
operations on a ledger, and fails at a drop of a resource that is not held. `run_eq_some_iff` reads
a run as the numbers of takes and drops.

`Leaves ops d` says that the operations, begun with nothing held, never drop what they did not take
and end with the references `d` held. What others hold does not matter (`Leaves.run_eq`), and lists
of operations compose (`Leaves.append`, `Leaves.bracket`, `Leaves.handOver`, `Leaves.flatMap`).
`Balanced` says of the operations themselves that they drop what they take, and is the case of
nothing left (`leaves_zero_iff`).
-/

namespace KernelPortfolio.Ledger

variable {R α : Type*} [DecidableEq R]

/-- An operation on a resource. -/
inductive Op (R : Type*) where
  | take (r : R)
  | drop (r : R)
  deriving DecidableEq, Repr

/-- The counts after an operation. -/
def step (c : R → ℕ) : Op R → Option (R → ℕ)
  | .take r => some (c + Pi.single r 1)
  | .drop r => if c r = 0 then none else some (c - Pi.single r 1)

/-- The counts after a list of operations. -/
def run : List (Op R) → (R → ℕ) → Option (R → ℕ)
  | [], c => some c
  | op :: ops, c => (step c op).bind (run ops)

/-- The operations take what they drop, and leave the references `d`. -/
def Leaves (ops : List (Op R)) (d : R → ℕ) : Prop := run ops 0 = some d

/-- How often the operations take a resource. -/
def takes (r : R) (ops : List (Op R)) : ℕ := ops.count (.take r)

/-- How often the operations drop a resource. -/
def drops (r : R) (ops : List (Op R)) : ℕ := ops.count (.drop r)

/-- The operations drop what they take, each reference once, and nothing that they did not take
before. -/
structure Balanced (ops : List (Op R)) : Prop where
  drops_le_takes : ∀ n r, drops r (ops.take n) ≤ takes r (ops.take n)
  takes_eq_drops : ∀ r, takes r ops = drops r ops

/-- The counts after two lists of operations. -/
theorem run_append (ops ops' : List (Op R)) (c : R → ℕ) :
    run (ops ++ ops') c = (run ops c).bind (run ops') := by
  induction ops generalizing c with
  | nil => rfl
  | cons op ops ih =>
    simp only [List.cons_append, run]
    cases step c op with
    | none => rfl
    | some c' => exact ih c'

/-- The takes of a list that begins with an operation. -/
theorem takes_cons (r : R) (op : Op R) (ops : List (Op R)) :
    takes r (op :: ops) = takes r ops + if op = .take r then 1 else 0 := by
  simp [takes, List.count_cons]

/-- The drops of a list that begins with an operation. -/
theorem drops_cons (r : R) (op : Op R) (ops : List (Op R)) :
    drops r (op :: ops) = drops r ops + if op = .drop r then 1 else 0 := by
  simp [drops, List.count_cons]

/-- The takes of two lists of operations. -/
theorem takes_append (r : R) (ops ops' : List (Op R)) :
    takes r (ops ++ ops') = takes r ops + takes r ops' := List.count_append

/-- The drops of two lists of operations. -/
theorem drops_append (r : R) (ops ops' : List (Op R)) :
    drops r (ops ++ ops') = drops r ops + drops r ops' := List.count_append

/-- Where things are taken, each is taken as often as it is in the list. -/
theorem takes_map_take (r : R) (rs : List R) : takes r (rs.map Op.take) = rs.count r :=
  List.count_map_of_injective rs Op.take (fun _ _ => Op.take.inj) r

/-- Where things are dropped, each is dropped as often as it is in the list. -/
theorem drops_map_drop (r : R) (rs : List R) : drops r (rs.map Op.drop) = rs.count r :=
  List.count_map_of_injective rs Op.drop (fun _ _ => Op.drop.inj) r

/-- Where things are dropped, nothing is taken. -/
theorem takes_map_drop (r : R) (rs : List R) : takes r (rs.map Op.drop) = 0 :=
  List.count_eq_zero.mpr fun hmem => by simp at hmem

/-- Where things are taken, nothing is dropped. -/
theorem drops_map_take (r : R) (rs : List R) : drops r (rs.map Op.take) = 0 :=
  List.count_eq_zero.mpr fun hmem => by simp at hmem

/-- A step succeeds exactly with the counts that it takes more and drops less. -/
theorem step_eq_some_iff {op : Op R} {c d : R → ℕ} :
    step c op = some d ↔ ∀ r, c r + (if op = .take r then 1 else 0) =
      d r + if op = .drop r then 1 else 0 := by
  cases op with
  | take r =>
    simp only [step, Option.some.injEq, funext_iff, Pi.add_apply, Pi.single_apply, Op.take.injEq,
      reduceCtorEq, if_false, Nat.add_zero, eq_comm]
  | drop r =>
    simp only [step, Op.drop.injEq, reduceCtorEq, if_false, Nat.add_zero]
    constructor
    · intro h s
      split_ifs at h with hc
      rw [← Option.some.inj h, Pi.sub_apply, Pi.single_apply]
      by_cases hs : s = r
      · subst hs
        rw [if_pos rfl]
        omega
      · rw [if_neg hs, if_neg (Ne.symm hs)]
        rfl
    · intro h
      have hr := h r
      rw [if_pos rfl] at hr
      rw [if_neg (by omega), Option.some.injEq]
      funext s
      have hs := h s
      rw [Pi.sub_apply, Pi.single_apply, hs]
      by_cases hsr : s = r
      · rw [if_pos hsr, if_pos hsr.symm, Nat.add_sub_cancel]
      · rw [if_neg hsr, if_neg (Ne.symm hsr)]
        rfl

/-- A run succeeds exactly when no prefix of it drops more than was held and taken, and then the
counts change by the takes and the drops. -/
theorem run_eq_some_iff {ops : List (Op R)} {c d : R → ℕ} :
    run ops c = some d ↔
      (∀ n r, drops r (ops.take n) ≤ c r + takes r (ops.take n)) ∧
        ∀ r, c r + takes r ops = d r + drops r ops := by
  induction ops generalizing c with
  | nil => simp [run, takes, drops, funext_iff]
  | cons op ops ih =>
    simp only [run, Option.bind_eq_some_iff, step_eq_some_iff, ih, takes_cons, drops_cons]
    constructor
    · rintro ⟨c', hstep, hpre, hend⟩
      refine ⟨fun n r => ?_, fun r => ?_⟩
      · cases n with
        | zero => simp [drops]
        | succ n =>
          have := hstep r
          have := hpre n r
          rw [List.take_succ_cons, takes_cons, drops_cons]
          omega
      · have := hstep r
        have := hend r
        omega
    · rintro ⟨hpre, hend⟩
      -- the first operation alone is a prefix
      obtain ⟨c', hstep⟩ : ∃ c' : R → ℕ, ∀ r, c r + (if op = .take r then 1 else 0) =
          c' r + if op = .drop r then 1 else 0 := by
        refine ⟨fun r => c r + (if op = .take r then 1 else 0) - if op = .drop r then 1 else 0,
          fun r => (Nat.sub_add_cancel ?_).symm⟩
        have hone := hpre 1 r
        rw [List.take_succ_cons, List.take_zero, takes_cons, drops_cons] at hone
        simpa only [takes, drops, List.count_nil, Nat.zero_add] using hone
      refine ⟨c', hstep, fun n r => ?_, fun r => ?_⟩
      · have := hstep r
        have hpre' := hpre (n + 1) r
        rw [List.take_succ_cons, takes_cons, drops_cons] at hpre'
        omega
      · have := hstep r
        have := hend r
        omega

/-- A list of operations does not depend on the references that others hold. -/
theorem run_add {ops : List (Op R)} {c d : R → ℕ} (h : run ops c = some d) (e : R → ℕ) :
    run ops (c + e) = some (d + e) := by
  rw [run_eq_some_iff] at h ⊢
  obtain ⟨hpre, hend⟩ := h
  refine ⟨fun n r => ?_, fun r => ?_⟩
  · have := hpre n r
    rw [Pi.add_apply]
    omega
  · have := hend r
    rw [Pi.add_apply, Pi.add_apply]
    omega

/-- What the operations leave is added to any counts. -/
theorem Leaves.run_eq {ops : List (Op R)} {d : R → ℕ} (h : Leaves ops d) (c : R → ℕ) :
    run ops c = some (c + d) := by
  have := run_add h c
  rwa [zero_add, add_comm] at this

/-- The operations leave one thing. -/
theorem Leaves.unique {ops : List (Op R)} {d d' : R → ℕ} (h : Leaves ops d) (h' : Leaves ops d') :
    d = d' :=
  Option.some.inj (h.symm.trans h')

/-- No operation leaves nothing. -/
theorem leaves_nil : Leaves ([] : List (Op R)) 0 := rfl

/-- One list of operations after another. -/
theorem Leaves.append {ops ops' : List (Op R)} {d d' : R → ℕ} (h : Leaves ops d)
    (h' : Leaves ops' d') : Leaves (ops ++ ops') (d + d') := by
  unfold Leaves
  rw [run_append, h, Option.bind_some]
  exact h'.run_eq d

/-- A reference that is taken and not dropped. -/
theorem Leaves.take {ops : List (Op R)} {d : R → ℕ} (h : Leaves ops d) (r : R) :
    Leaves (.take r :: ops) (Pi.single r 1 + d) := by
  have hsingle : Leaves [.take r] (Pi.single r 1) := by
    simp only [Leaves, run, step, zero_add, Option.bind_some]
  exact hsingle.append h

/-- A reference that is held while other operations run. -/
theorem Leaves.bracket {ops : List (Op R)} {d : R → ℕ} (h : Leaves ops d) (r : R) :
    Leaves (.take r :: (ops ++ [.drop r])) d := by
  have htake := h.take r
  have hheld : (Pi.single r 1 + d : R → ℕ) r ≠ 0 := by
    rw [Pi.add_apply, Pi.single_eq_same]
    omega
  unfold Leaves
  rw [← List.cons_append, run_append, htake, Option.bind_some]
  simp only [run, step, if_neg hheld, Option.bind_some, Option.some.injEq]
  funext s
  by_cases hs : s = r
  · subst hs
    simp only [Pi.sub_apply, Pi.add_apply, Pi.single_eq_same]
    omega
  · simp only [Pi.sub_apply, Pi.add_apply, Pi.single_eq_of_ne hs, Nat.sub_zero, Nat.zero_add]

/-- A reference that is taken just before another one is dropped might as well be taken after. -/
theorem run_take_drop {r s : R} (h : r ≠ s) (ops : List (Op R)) (c : R → ℕ) :
    run (.take r :: .drop s :: ops) c = run (.drop s :: .take r :: ops) c := by
  have hs : (c + Pi.single r 1 : R → ℕ) s = c s := by
    rw [Pi.add_apply, Pi.single_eq_of_ne h.symm, add_zero]
  simp only [run, step, Option.bind_some, hs]
  split_ifs with hc
  · rfl
  · simp only [Option.bind_some]
    congr 1
    funext t
    by_cases ht : t = s
    · subst ht
      simp only [Pi.sub_apply, Pi.add_apply, Pi.single_eq_same, Pi.single_eq_of_ne h.symm, add_zero]
    · simp only [Pi.sub_apply, Pi.add_apply, Pi.single_eq_of_ne ht, Nat.sub_zero]

/-- Hand over hand: one reference is taken before another one is dropped. -/
theorem Leaves.handOver (pre : List (Op R)) {ops : List (Op R)} {d : R → ℕ} {r s : R} (hne : r ≠ s)
    (h : Leaves (pre ++ .drop s :: .take r :: ops) d) :
    Leaves (pre ++ .take r :: .drop s :: ops) d := by
  have hswap : run (.take r :: .drop s :: ops) = run (.drop s :: .take r :: ops) :=
    funext (run_take_drop hne ops)
  unfold Leaves at h ⊢
  rw [run_append] at h ⊢
  rw [hswap]
  exact h

/-- The operations of a run of a program, call after call. -/
theorem Leaves.flatMap {ops : α → List (Op R)} {d : α → R → ℕ} (xs : List α)
    (h : ∀ x ∈ xs, Leaves (ops x) (d x)) : Leaves (xs.flatMap ops) (xs.map d).sum := by
  induction xs with
  | nil => exact leaves_nil
  | cons x xs ih =>
    rw [List.flatMap_cons, List.map_cons, List.sum_cons]
    exact (h x (by simp)).append (ih fun y hy => h y (by simp [hy]))

/-! ## Balance -/

/-- Operations that leave nothing are balanced. -/
theorem leaves_zero_iff {ops : List (Op R)} : Leaves ops 0 ↔ Balanced ops := by
  unfold Leaves
  rw [run_eq_some_iff]
  simp only [Pi.zero_apply, Nat.zero_add]
  exact ⟨fun h => ⟨h.1, h.2⟩, fun h => ⟨h.1, h.2⟩⟩

/-- Things that are taken, and then dropped in any order. -/
theorem balanced_of_perm {rs ss : List R} (h : rs.Perm ss) :
    Balanced (rs.map Op.take ++ ss.map Op.drop) := by
  refine ⟨fun n r => ?_, fun r => ?_⟩
  · -- a prefix has as many takes, or all of them
    rw [List.take_append, ← List.map_take, ← List.map_take, List.length_map]
    simp only [takes_append, drops_append, takes_map_take, drops_map_take, takes_map_drop,
      drops_map_drop, Nat.zero_add, Nat.add_zero]
    rcases Nat.lt_or_ge n rs.length with hn | hn
    · rw [Nat.sub_eq_zero_of_le (Nat.le_of_lt hn), List.take_zero]
      exact Nat.zero_le _
    · rw [List.take_of_length_le hn, h.count_eq]
      exact (List.take_sublist _ ss).count_le r
  · simp only [takes_append, drops_append, takes_map_take, drops_map_take, takes_map_drop,
      drops_map_drop, Nat.zero_add, Nat.add_zero]
    exact h.count_eq r

/-- Balanced operations do not change any counts. -/
theorem Balanced.run_eq {ops : List (Op R)} (h : Balanced ops) (c : R → ℕ) :
    run ops c = some c := by
  have := (leaves_zero_iff.mpr h).run_eq c
  rwa [add_zero] at this

/-- A run of calls that are all balanced is balanced. -/
theorem Balanced.flatMap {ops : α → List (Op R)} {xs : List α} (h : ∀ x ∈ xs, Balanced (ops x)) :
    Balanced (xs.flatMap ops) := by
  have hsum := Leaves.flatMap xs fun x hx => leaves_zero_iff.mpr (h x hx)
  rw [List.map_const', List.sum_replicate, nsmul_zero] at hsum
  exact leaves_zero_iff.mp hsum

end KernelPortfolio.Ledger
