import Mathlib.Algebra.GroupWithZero.Nat
import Mathlib.Data.List.Chain
import Mathlib.Data.List.Range
import Mathlib.Tactic.Common

/-!
# Runs of equal labels

A run is a range of numbers with a label. `runsOf f lo n` are the runs of the labels that a partial
function `f` has from `lo` on: one run for each stretch of numbers with one label, as long as it
goes. They are built from left to right: `push` takes a range behind all of them, and makes the last
run longer where it fits. `runsOf_add_some` says that a range with one label may be taken at once.

The runs are in order (`within_runsOf`), none of them can be longer (`maximal_runsOf`), and they are
the labels of the function, each number once (`points_runsOf`).
-/

namespace KernelPortfolio.Runs

variable {κ : Type*}

/-- The numbers from `lo` to `hi`, and their label. -/
structure Run (κ : Type*) where
  lo : ℕ
  hi : ℕ
  label : κ
  deriving DecidableEq, Repr

/-- The numbers of a run, with their label. -/
def Run.points (r : Run κ) : List (ℕ × κ) :=
  (List.range' r.lo (r.hi - r.lo)).map fun i => (i, r.label)

/-- The numbers of runs. -/
def points (rs : List (Run κ)) : List (ℕ × κ) := rs.flatMap Run.points

/-- How many numbers the runs have. -/
def size (rs : List (Run κ)) : ℕ := (rs.map fun r => r.hi - r.lo).sum

/-- None of the runs goes on where the next one begins. -/
def Maximal (rs : List (Run κ)) : Prop :=
  rs.IsChain fun r r' => ¬ (r.hi = r'.lo ∧ r.label = r'.label)

/-- Runs from `lo` to `hi`: in order, none of them empty. -/
structure Within (lo hi : ℕ) (rs : List (Run κ)) : Prop where
  bounds : ∀ r ∈ rs, lo ≤ r.lo ∧ r.lo < r.hi ∧ r.hi ≤ hi
  sorted : rs.Pairwise fun r r' => r.hi ≤ r'.lo

/-- No runs. -/
theorem within_nil (lo hi : ℕ) : Within lo hi ([] : List (Run κ)) :=
  ⟨fun _ h => absurd h List.not_mem_nil, List.Pairwise.nil⟩

/-- A wider range. -/
theorem Within.mono {lo hi hi' : ℕ} {rs : List (Run κ)} (h : Within lo hi rs) (hle : hi ≤ hi') :
    Within lo hi' rs :=
  ⟨fun r hr => ⟨(h.bounds r hr).1, (h.bounds r hr).2.1, (h.bounds r hr).2.2.trans hle⟩, h.sorted⟩

variable [DecidableEq κ]

/-- A range behind the runs: the last run is made longer, or there is a new one. -/
def push (rs : List (Run κ)) (lo hi : ℕ) (label : κ) : List (Run κ) :=
  match rs.getLast? with
  | none => [⟨lo, hi, label⟩]
  | some r =>
    if r.hi = lo ∧ r.label = label then rs.dropLast ++ [⟨r.lo, hi, label⟩]
    else rs ++ [⟨lo, hi, label⟩]

/-- The runs of a function from `lo` on, over `n` numbers. -/
def runsOf (f : ℕ → Option κ) (lo : ℕ) : ℕ → List (Run κ)
  | 0 => []
  | n + 1 =>
    match f (lo + n) with
    | none => runsOf f lo n
    | some label => push (runsOf f lo n) (lo + n) (lo + n + 1) label

variable {f : ℕ → Option κ} {lo mid hi n m : ℕ} {label : κ} {rs : List (Run κ)}

@[simp]
theorem push_nil (lo hi : ℕ) (label : κ) : push [] lo hi label = [⟨lo, hi, label⟩] := rfl

/-- A range behind runs, of which `r` is the last one. -/
theorem push_concat (rs : List (Run κ)) (r : Run κ) (lo hi : ℕ) (label : κ) :
    push (rs ++ [r]) lo hi label =
      if r.hi = lo ∧ r.label = label then rs ++ [⟨r.lo, hi, label⟩]
      else rs ++ [r] ++ [⟨lo, hi, label⟩] := by
  simp [push]

/-- Where the last run does not go on with the range, there is a new one. -/
theorem push_of_not (h : ∀ r ∈ rs.getLast?, ¬ (r.hi = lo ∧ r.label = label)) :
    push rs lo hi label = rs ++ [⟨lo, hi, label⟩] := by
  rcases List.eq_nil_or_concat rs with rfl | ⟨rs', r, rfl⟩
  · rfl
  · rw [List.concat_eq_append, push_concat, if_neg]
    exact h r (by simp)

/-- Two cases: the last run is made longer, or nothing happens to the runs that there are. -/
theorem push_cases (rs : List (Run κ)) (lo hi : ℕ) (label : κ) :
    (∃ rs' r, rs = rs' ++ [r] ∧ r.hi = lo ∧ r.label = label ∧
      push rs lo hi label = rs' ++ [⟨r.lo, hi, label⟩]) ∨
    ((∀ r ∈ rs.getLast?, ¬ (r.hi = lo ∧ r.label = label)) ∧
      push rs lo hi label = rs ++ [⟨lo, hi, label⟩]) := by
  rcases List.eq_nil_or_concat rs with rfl | ⟨rs', r, rfl⟩
  · exact .inr ⟨by simp, rfl⟩
  · rw [List.concat_eq_append, push_concat]
    by_cases h : r.hi = lo ∧ r.label = label
    · rw [if_pos h]
      exact .inl ⟨rs', r, rfl, h.1, h.2, rfl⟩
    · rw [if_neg h]
      exact .inr ⟨by simpa using h, rfl⟩

/-- A range may be taken in two parts. -/
theorem push_push (rs : List (Run κ)) (lo mid hi : ℕ) (label : κ) :
    push (push rs lo mid label) mid hi label = push rs lo hi label := by
  rcases List.eq_nil_or_concat rs with rfl | ⟨rs', r, rfl⟩
  · simp [push]
  · rw [List.concat_eq_append, push_concat, push_concat]
    by_cases h : r.hi = lo ∧ r.label = label
    · rw [if_pos h, if_pos h, push_concat, if_pos ⟨rfl, rfl⟩]
    · rw [if_neg h, if_neg h, push_concat, if_pos ⟨rfl, rfl⟩]

/-- Runs further to the left do not matter. -/
theorem push_append (ps : List (Run κ)) (h : rs ≠ []) :
    push (ps ++ rs) lo hi label = ps ++ push rs lo hi label := by
  obtain ⟨rs', r, rfl⟩ := (List.eq_nil_or_concat rs).resolve_left h
  rw [List.concat_eq_append, ← List.append_assoc, push_concat, push_concat]
  split_ifs <;> simp

/-- A number without a label. -/
theorem runsOf_succ_none (h : f (lo + n) = none) : runsOf f lo (n + 1) = runsOf f lo n := by
  rw [runsOf, h]

/-- A number with a label. -/
theorem runsOf_succ_some (h : f (lo + n) = some label) :
    runsOf f lo (n + 1) = push (runsOf f lo n) (lo + n) (lo + n + 1) label := by
  rw [runsOf, h]

/-- Numbers without a label change nothing. -/
theorem runsOf_add_none (m : ℕ) (h : ∀ i, lo + n ≤ i → i < lo + n + m → f i = none) :
    runsOf f lo (n + m) = runsOf f lo n := by
  induction m with
  | zero => rfl
  | succ m ih =>
    rw [← Nat.add_assoc, runsOf_succ_none (h _ (by omega) (by omega))]
    exact ih fun i hi hi' => h i hi (by omega)

/-- Numbers with one label may be taken at once. -/
theorem runsOf_add_some (hm : 0 < m) (h : ∀ i, lo + n ≤ i → i < lo + n + m → f i = some label) :
    runsOf f lo (n + m) = push (runsOf f lo n) (lo + n) (lo + n + m) label := by
  induction m with
  | zero => exact absurd hm (lt_irrefl 0)
  | succ m ih =>
    rw [← Nat.add_assoc, runsOf_succ_some (h _ (by omega) (by omega))]
    rcases Nat.eq_zero_or_pos m with rfl | hpos
    · rfl
    · have hrest := ih hpos fun i hi hi' => h i hi (by omega)
      rw [hrest, ← Nat.add_assoc, push_push, ← Nat.add_assoc]

/-- A range does not make the runs fewer. -/
theorem length_le_push (rs : List (Run κ)) (lo hi : ℕ) (label : κ) :
    rs.length ≤ (push rs lo hi label).length := by
  rcases push_cases rs lo hi label with ⟨rs', r, rfl, -, -, heq⟩ | ⟨-, heq⟩ <;> rw [heq] <;> simp

/-- There are more runs, or as many, further to the right. -/
theorem length_runsOf_mono (h : n ≤ m) : (runsOf f lo n).length ≤ (runsOf f lo m).length := by
  induction m, h using Nat.le_induction with
  | base => exact le_rfl
  | succ m _ ih =>
    refine ih.trans ?_
    cases hf : f (lo + m) with
    | none => rw [runsOf_succ_none hf]
    | some label =>
      rw [runsOf_succ_some hf]
      exact length_le_push _ _ _ _

/-! ## What the runs are -/

/-- The numbers of two lists of runs. -/
theorem points_append {κ : Type*} (rs rs' : List (Run κ)) :
    points (rs ++ rs') = points rs ++ points rs' :=
  List.flatMap_append

/-- How many numbers two lists of runs have. -/
theorem size_append {κ : Type*} (rs rs' : List (Run κ)) :
    size (rs ++ rs') = size rs + size rs' := by
  simp [size]

/-- A range makes as many numbers as it has. -/
theorem size_push (h : ∀ r ∈ rs, r.lo ≤ r.hi) (hle : lo ≤ hi) :
    size (push rs lo hi label) = size rs + (hi - lo) := by
  rcases push_cases rs lo hi label with ⟨rs', r, rfl, rfl, -, heq⟩ | ⟨-, heq⟩
  · have hr := h r (List.mem_append_right _ (List.mem_singleton_self r))
    rw [heq, size_append, size_append]
    simp only [size, List.map_cons, List.map_nil, List.sum_cons, List.sum_nil]
    omega
  · rw [heq, size_append]
    simp [size]

/-- A range behind the runs. -/
theorem Within.push (h : Within lo mid rs) (hlo : lo ≤ mid) (hlt : mid < hi) :
    Within lo hi (push rs mid hi label) := by
  rcases push_cases rs mid hi label with ⟨rs', r, rfl, hend, -, heq⟩ | ⟨-, heq⟩
  · rw [heq]
    obtain ⟨hr, hr', -⟩ := h.bounds r (List.mem_append_right _ (List.mem_singleton_self r))
    obtain ⟨hsorted, -, hlast⟩ := List.pairwise_append.mp h.sorted
    refine ⟨?_, List.pairwise_append.mpr ⟨hsorted, List.pairwise_singleton _ _, ?_⟩⟩
    · intro x hx
      rcases List.mem_append.mp hx with hold | hnew
      · obtain ⟨h1, h2, h3⟩ := h.bounds x (List.mem_append_left _ hold)
        exact ⟨h1, h2, by omega⟩
      · rw [List.mem_singleton.mp hnew]
        exact ⟨hr, by simp only; omega, le_rfl⟩
    · intro x hx y hy
      rw [List.mem_singleton.mp hy]
      exact hlast x hx r (List.mem_singleton_self r)
  · rw [heq]
    refine ⟨?_, List.pairwise_append.mpr ⟨h.sorted, List.pairwise_singleton _ _, ?_⟩⟩
    · intro x hx
      rcases List.mem_append.mp hx with hold | hnew
      · obtain ⟨h1, h2, h3⟩ := h.bounds x hold
        exact ⟨h1, h2, by omega⟩
      · rw [List.mem_singleton.mp hnew]
        exact ⟨hlo, hlt, le_rfl⟩
    · intro x hx y hy
      rw [List.mem_singleton.mp hy]
      exact (h.bounds x hx).2.2

/-- The runs of a function are in order, and none of them is empty. -/
theorem within_runsOf (f : ℕ → Option κ) (lo n : ℕ) : Within lo (lo + n) (runsOf f lo n) := by
  induction n with
  | zero => exact within_nil lo _
  | succ n ih =>
    cases hf : f (lo + n) with
    | none =>
      rw [runsOf_succ_none hf]
      exact ih.mono (by omega)
    | some label =>
      rw [runsOf_succ_some hf]
      exact ih.push (Nat.le_add_right lo n) (Nat.lt_succ_self _)

/-- No run of a function goes on where the next one begins. -/
theorem maximal_runsOf (f : ℕ → Option κ) (lo n : ℕ) : Maximal (runsOf f lo n) := by
  induction n with
  | zero => exact List.isChain_nil
  | succ n ih =>
    cases hf : f (lo + n) with
    | none =>
      rw [runsOf_succ_none hf]
      exact ih
    | some label =>
      rw [runsOf_succ_some hf]
      rcases push_cases (runsOf f lo n) (lo + n) (lo + n + 1) label with
        ⟨rs', r, hrs, -, hlabel, heq⟩ | ⟨hlast, heq⟩
      · rw [heq]
        rw [hrs] at ih
        unfold Maximal at ih ⊢
        rw [List.isChain_append] at ih ⊢
        obtain ⟨hchain, -, hjoin⟩ := ih
        refine ⟨hchain, List.isChain_singleton _, ?_⟩
        intro x hx y hy
        simp only [List.head?_cons, Option.mem_def, Option.some.injEq] at hy
        subst hy
        have hne := hjoin x hx r (by simp)
        rwa [hlabel] at hne
      · rw [heq]
        unfold Maximal at ih ⊢
        rw [List.isChain_append]
        refine ⟨ih, List.isChain_singleton _, ?_⟩
        intro x hx y hy
        simp only [List.head?_cons, Option.mem_def, Option.some.injEq] at hy
        subst hy
        exact hlast x hx

/-- The numbers of a range that is pushed come behind those of the runs. -/
theorem points_push (h : Within lo mid rs) (hlt : mid < hi) :
    points (push rs mid hi label) = points rs ++ Run.points ⟨mid, hi, label⟩ := by
  rcases push_cases rs mid hi label with ⟨rs', r, rfl, rfl, rfl, heq⟩ | ⟨-, heq⟩
  · obtain ⟨-, hr, -⟩ := h.bounds r (List.mem_append_right _ (List.mem_singleton_self r))
    have hsplit : List.range' r.lo (hi - r.lo) =
        List.range' r.lo (r.hi - r.lo) ++ List.range' r.hi (hi - r.hi) := by
      rw [show hi - r.lo = (r.hi - r.lo) + (hi - r.hi) by omega, ← List.range'_append_1,
        show r.lo + (r.hi - r.lo) = r.hi by omega]
    rw [heq, points_append, points_append, List.append_assoc]
    congr 1
    simp only [points, List.flatMap_cons, List.flatMap_nil, List.append_nil, Run.points]
    rw [hsplit, List.map_append]
  · rw [heq, points_append]
    simp [points]

/-- The runs of a function are its labels, each number once and in order. -/
theorem points_runsOf (f : ℕ → Option κ) (lo n : ℕ) :
    points (runsOf f lo n) = (List.range' lo n).filterMap fun i => (f i).map fun c => (i, c) := by
  induction n with
  | zero => rfl
  | succ n ih =>
    rw [List.range'_1_concat, List.filterMap_append, ← ih]
    cases hf : f (lo + n) with
    | none =>
      rw [runsOf_succ_none hf]
      simp [hf]
    | some label =>
      rw [runsOf_succ_some hf, points_push (within_runsOf f lo n) (Nat.lt_succ_self _)]
      simp [Run.points, hf]

end KernelPortfolio.Runs
