import Mathlib.Algebra.BigOperators.Group.Finset.Basic
import Mathlib.Algebra.GroupWithZero.Nat
import Mathlib.Algebra.Order.BigOperators.Group.Finset
import Mathlib.Tactic.Common

/-!
# Tallies

A tally is carried along a loop, and each step adds to it. `Adds f` says that a step adds the same
whatever was counted before. Loops of such steps are of this kind (`Adds.foldl`), and what they
count is a sum (`foldl_eq_sum`).

A cost that several holders have in common is divided between them, each of them rounding down.
`sum_shares_le` and `le_sum_shares` bound what the shares of all holders are together.
-/

namespace KernelPortfolio.Tally

variable {M ι : Type*} [AddCommMonoid M]

/-- A step that adds to the tally. -/
def Adds (f : M → M) : Prop := ∀ s, f s = s + f 0

/-- A step adds if it is an addition. -/
theorem Adds.of_eq {f : M → M} {m : M} (h : ∀ s, f s = s + m) : Adds f := by
  intro s
  rw [h s, h 0, zero_add]

/-- A step that does nothing. -/
theorem Adds.id : Adds fun s : M => s := .of_eq fun s => (add_zero s).symm

/-- One step after another. -/
theorem Adds.comp {f g : M → M} (hg : Adds g) (hf : Adds f) : Adds fun s => g (f s) := by
  intro s
  show g (f s) = s + g (f 0)
  rw [hg (f s), hf s, hg (f 0), add_assoc]

/-- A loop over steps that add is their sum. -/
theorem foldl_eq_sum {f : M → ι → M} {xs : List ι} (h : ∀ x ∈ xs, Adds fun s => f s x) (s : M) :
    xs.foldl f s = s + (xs.map fun x => f 0 x).sum := by
  induction xs generalizing s with
  | nil => simp
  | cons x xs ih =>
    have hx : f s x = s + f 0 x := h x (List.mem_cons_self ..) s
    have hxs := ih (fun y hy => h y (List.mem_cons_of_mem _ hy)) (f s x)
    rw [List.foldl_cons, hxs, hx, List.map_cons, List.sum_cons, add_assoc]

/-- A loop over steps that add. -/
theorem Adds.foldl {f : M → ι → M} {xs : List ι} (h : ∀ x ∈ xs, Adds fun s => f s x) :
    Adds fun s => xs.foldl f s :=
  .of_eq fun s => foldl_eq_sum h s

/-! ## Shares -/

variable [DecidableEq ι] (cost : ℕ) (holders : List ι)

/-- The shares of all holders, by what they hold. -/
theorem sum_shares :
    (holders.map fun x => cost / holders.count x).sum =
      ∑ x ∈ holders.toFinset, holders.count x * (cost / holders.count x) := by
  rw [Finset.sum_list_map_count]
  rfl

/-- The shares are not more than what is shared. -/
theorem sum_shares_le :
    (holders.map fun x => cost / holders.count x).sum ≤ holders.toFinset.card * cost := by
  calc (holders.map fun x => cost / holders.count x).sum
      = ∑ x ∈ holders.toFinset, holders.count x * (cost / holders.count x) :=
        sum_shares cost holders
    _ ≤ ∑ _x ∈ holders.toFinset, cost := Finset.sum_le_sum fun x _ => Nat.mul_div_le cost _
    _ = holders.toFinset.card * cost := Finset.sum_const_nat fun _ _ => rfl

/-- For each holder but one, at most one unit of what it holds is lost. -/
theorem le_sum_shares :
    holders.toFinset.card * cost + holders.toFinset.card ≤
      (holders.map fun x => cost / holders.count x).sum + holders.length := by
  have hone : ∀ x ∈ holders.toFinset,
      cost + 1 ≤ holders.count x * (cost / holders.count x) + holders.count x := by
    intro x hx
    have hpos : 0 < holders.count x := List.count_pos_iff.mpr (List.mem_toFinset.mp hx)
    have hlt := Nat.lt_mul_div_succ cost hpos
    rw [Nat.mul_add, Nat.mul_one] at hlt
    exact hlt
  calc holders.toFinset.card * cost + holders.toFinset.card
      = ∑ _x ∈ holders.toFinset, (cost + 1) := by
        rw [Finset.sum_const_nat fun _ _ => rfl, Nat.mul_add, Nat.mul_one]
    _ ≤ ∑ x ∈ holders.toFinset,
          (holders.count x * (cost / holders.count x) + holders.count x) := Finset.sum_le_sum hone
    _ = (holders.map fun x => cost / holders.count x).sum + holders.length := by
        rw [Finset.sum_add_distrib, sum_shares, List.sum_toFinset_count_eq_length]

end KernelPortfolio.Tally
