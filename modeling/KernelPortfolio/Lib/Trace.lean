import Mathlib.Data.List.Basic
import Mathlib.Tactic.Common

/-!
# What holds at each point of a trace

`Each P xs` says that `P` holds of every element of the list `xs` together with what stands before
it. A trace that is put together from parts is checked part by part (`each_append`), and a part that
a loop leaves is checked turn by turn (`each_flatMap`).
-/

namespace KernelPortfolio.Trace

variable {α ι : Type*}

/-- The property holds of every element and of the list before it. -/
def Each (P : List α → α → Prop) (xs : List α) : Prop :=
  ∀ pre x post, xs = pre ++ x :: post → P pre x

/-- Nothing happens in an empty trace. -/
@[simp]
theorem each_nil (P : List α → α → Prop) : Each P [] := by
  intro pre x post h
  exact absurd h.symm (List.append_ne_nil_of_right_ne_nil _ (List.cons_ne_nil _ _))

/-- The first element, and the rest. -/
theorem each_cons {P : List α → α → Prop} {x : α} {xs : List α} :
    Each P (x :: xs) ↔ P [] x ∧ Each (fun pre => P (x :: pre)) xs := by
  constructor
  · intro h
    exact ⟨h [] x xs rfl, fun pre y post heq => h (x :: pre) y post (by rw [heq]; rfl)⟩
  · rintro ⟨hhead, htail⟩ pre y post heq
    cases pre with
    | nil =>
      obtain ⟨rfl, -⟩ := List.cons.inj heq
      exact hhead
    | cons z pre =>
      obtain ⟨rfl, heq'⟩ := List.cons.inj heq
      exact htail pre y post heq'

/-- One trace after another. -/
theorem each_append {P : List α → α → Prop} {xs ys : List α} :
    Each P (xs ++ ys) ↔ Each P xs ∧ Each (fun pre => P (xs ++ pre)) ys := by
  induction xs generalizing P with
  | nil => simp
  | cons x xs ih =>
    rw [List.cons_append, each_cons, each_cons, ih, and_assoc]
    rfl

/-- What holds wherever an element stands. -/
theorem each_of_forall {P : List α → α → Prop} {xs : List α} (h : ∀ x ∈ xs, ∀ pre, P pre x) :
    Each P xs := by
  intro pre x post heq
  exact h x (by rw [heq]; simp) pre

/-- Two properties that agree at the points of a trace. -/
theorem each_congr {P Q : List α → α → Prop} {xs : List α}
    (h : ∀ pre x post, xs = pre ++ x :: post → (P pre x ↔ Q pre x)) : Each P xs ↔ Each Q xs :=
  forall_congr' fun pre => forall_congr' fun x => forall_congr' fun post =>
    forall_congr' fun heq => h pre x post heq

/-- The trace of a loop, turn by turn. -/
theorem each_flatMap {P : List α → α → Prop} {is : List ι} {f : ι → List α} :
    Each P (is.flatMap f) ↔
      Each (fun before i => Each (fun pre => P (before.flatMap f ++ pre)) (f i)) is := by
  induction is generalizing P with
  | nil => simp
  | cons i is ih =>
    rw [List.flatMap_cons, each_append, each_cons, ih]
    simp only [List.flatMap_nil, List.nil_append, List.flatMap_cons, List.append_assoc]

/-- In an increasing list, each element is checked with the smaller ones before it. -/
theorem each_iff_of_pairwise_lt {P : List ℕ → ℕ → Prop} {is : List ℕ} (h : is.Pairwise (· < ·)) :
    Each P is ↔ ∀ i ∈ is, P (is.filter (· < i)) i := by
  -- what stands before an element is what is smaller
  have hfilter : ∀ pre i post, is = pre ++ i :: post → is.filter (· < i) = pre := by
    rintro pre i post rfl
    rw [List.pairwise_append, List.pairwise_cons] at h
    obtain ⟨-, ⟨hpost, -⟩, hpre⟩ := h
    have hkeep : pre.filter (· < i) = pre :=
      List.filter_eq_self.mpr fun j hj => decide_eq_true (hpre j hj i (List.mem_cons_self ..))
    have hdrop : post.filter (· < i) = [] :=
      List.filter_eq_nil_iff.mpr fun j hj => by simpa using Nat.le_of_lt (hpost j hj)
    rw [List.filter_append, hkeep, List.filter_cons_of_neg (by simp), hdrop, List.append_nil]
  constructor
  · intro heach i hi
    obtain ⟨pre, post, heq⟩ := List.append_of_mem hi
    rw [hfilter pre i post heq]
    exact heach pre i post heq
  · intro hall pre i post heq
    have hi := hall i (by rw [heq]; simp)
    rwa [hfilter pre i post heq] at hi

end KernelPortfolio.Trace
