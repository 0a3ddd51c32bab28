import Mathlib.Data.List.Range
import Mathlib.Tactic.Common

/-!
# Counted loops that collect

`forLoop` is the `for` loop of C over a counter, with a condition beside the bound of the counter
and with `break`. `forLoop_rule` is its invariant rule.

A `Tally` is the state of a loop that collects items: what it found, and a separate count of it. A
cap on the count may end the loop early. `Tally.Holds` says that a tally holds a list up to the cap,
and `Tally.holds_forLoop` that nested loops collect the concatenation of what their bodies collect,
up to the cap, wherever among the nested loops the cap is met. `sorted_flatMap` is about the order
in which they do.
-/

namespace KernelPortfolio.Loop

variable {σ α : Type*}

/-- How the body of a loop ends: with the next iteration (also by `continue`), or by `break`. -/
inductive Flow (σ : Type*) where
  | next (s : σ)
  | brk (s : σ)

/-- `for (i = lo; i < lo + n && cond; i++) body`, with its arguments in the order `n`, `lo`. -/
def forLoop (cond : σ → Bool) (body : ℕ → σ → Flow σ) : ℕ → ℕ → σ → σ
  | 0, _, s => s
  | n + 1, i, s =>
    if cond s then
      match body i s with
      | .next s' => forLoop cond body n (i + 1) s'
      | .brk s' => s'
    else s

/-- The invariant rule: `P i` holds before iteration `i`, and an early exit establishes `P` at the
end of the range. -/
theorem forLoop_rule {cond : σ → Bool} {body : ℕ → σ → Flow σ} (P : ℕ → σ → Prop) (n : ℕ) :
    ∀ {lo : ℕ} {s : σ}, P lo s →
      (∀ i s s', lo ≤ i → i < lo + n → P i s → cond s = true → body i s = .next s' →
        P (i + 1) s') →
      (∀ i s s', lo ≤ i → i < lo + n → P i s → cond s = true → body i s = .brk s' →
        P (lo + n) s') →
      (∀ i s, lo ≤ i → i < lo + n → P i s → cond s = false → P (lo + n) s) →
      P (lo + n) (forLoop cond body n lo s) := by
  induction n with
  | zero => intro lo s h0 _ _ _; exact h0
  | succ n ih =>
    intro lo s h0 hnext hbrk hstop
    have hend : lo + (n + 1) = lo + 1 + n := by omega
    rw [hend] at hnext hbrk hstop ⊢
    unfold forLoop
    cases hc : cond s with
    | false => simpa using hstop lo s le_rfl (by omega) h0 hc
    | true =>
      rw [if_pos rfl]
      cases hb : body lo s with
      | brk s' => exact hbrk lo s s' le_rfl (by omega) h0 hc hb
      | next s' =>
        refine ih (hnext lo s s' le_rfl (by omega) h0 hc hb) ?_ ?_ ?_
        · exact fun i t t' hi hlt => hnext i t t' (by omega) (by omega)
        · exact fun i t t' hi hlt => hbrk i t t' (by omega) (by omega)
        · exact fun i t hi hlt => hstop i t (by omega) (by omega)

/-! ## Tallies -/

/-- What a loop collected, and its count. -/
structure Tally (α : Type*) where
  count : ℕ
  found : List α

namespace Tally

/-- The tally before the loop. -/
def empty : Tally α := ⟨0, []⟩

/-- One more item. -/
def push (s : Tally α) (x : α) : Tally α := ⟨s.count + 1, s.found ++ [x]⟩

/-- The cap is met; `none` is no cap. -/
def Full (cap : Option ℕ) (s : Tally α) : Prop := ∃ c ∈ cap, c ≤ s.count

/-- The tally holds the list `xs` up to the cap. -/
def Holds (cap : Option ℕ) (xs : List α) (s : Tally α) : Prop :=
  s.found = (match cap with | none => xs | some c => xs.take c) ∧ s.count = s.found.length

/-- The empty tally holds the empty list. -/
theorem holds_empty (cap : Option ℕ) : Holds cap ([] : List α) empty := by
  cases cap <;> simp [Holds, empty]

/-- Below the cap a pushed item is appended. -/
theorem Holds.push {cap : Option ℕ} {xs : List α} {s : Tally α} (h : Holds cap xs s)
    (hf : ¬ Full cap s) (x : α) : Holds cap (xs ++ [x]) (s.push x) := by
  obtain ⟨hfound, hcount⟩ := h
  cases cap with
  | none =>
    simp only at hfound
    exact ⟨by simp [Tally.push, hfound], by simp [Tally.push, hcount]⟩
  | some c =>
    simp only at hfound
    have hlt : s.count < c := by simpa [Full] using hf
    have hlen : xs.length < c := by
      rw [hcount, hfound, List.length_take] at hlt
      omega
    rw [List.take_of_length_le hlen.le] at hfound
    refine ⟨?_, by simp [Tally.push, hcount]⟩
    simp only [Tally.push, hfound]
    rw [List.take_of_length_le]
    rw [List.length_append, List.length_singleton]
    omega

/-- At the cap nothing more is held. -/
theorem Holds.append_of_full {cap : Option ℕ} {xs : List α} {s : Tally α} (h : Holds cap xs s)
    (hf : Full cap s) (ys : List α) : Holds cap (xs ++ ys) s := by
  obtain ⟨hfound, hcount⟩ := h
  obtain ⟨c, rfl, hc⟩ := hf
  refine ⟨?_, hcount⟩
  simp only at hfound ⊢
  have hlen : c ≤ xs.length := by
    rw [hcount, hfound, List.length_take] at hc
    omega
  rw [hfound, List.take_append_of_le_length hlen]

/-- One run of a loop's body leaves a tally that holds `xs`; `break` is for a full one. -/
def Leaves (cap : Option ℕ) (xs : List α) : Flow (Tally α) → Prop
  | .next s => Holds cap xs s
  | .brk s => Holds cap xs s ∧ Full cap s

/-- A loop that stops at the cap only, and whose body for `i` collects `items i`, collects the
concatenation of the items over its range. -/
theorem holds_forLoop {cap : Option ℕ} {cond : Tally α → Bool} {body : ℕ → Tally α → Flow (Tally α)}
    {items : ℕ → List α} (hcond : ∀ s, cond s = true ↔ ¬ Full cap s) (n lo : ℕ)
    (hbody : ∀ i xs s, Holds cap xs s → ¬ Full cap s → Leaves cap (xs ++ items i) (body i s))
    {xs : List α} {s : Tally α} (h : Holds cap xs s) :
    Holds cap (xs ++ (List.range' lo n).flatMap items) (forLoop cond body n lo s) := by
  -- Before iteration `i` the tally holds what the range below `i` gives.
  have hsplit : ∀ i, lo ≤ i → i < lo + n → ∃ ys,
      (List.range' lo n).flatMap items = (List.range' lo (i + 1 - lo)).flatMap items ++ ys := by
    intro i hi hlt
    obtain ⟨k, rfl⟩ : ∃ k, n = (i + 1 - lo) + k := ⟨n - (i + 1 - lo), by omega⟩
    exact ⟨_, by rw [← List.range'_append_1, List.flatMap_append]⟩
  have hsucc : ∀ i, lo ≤ i → (List.range' lo (i + 1 - lo)).flatMap items =
      (List.range' lo (i - lo)).flatMap items ++ items i := by
    intro i hi
    rw [show i + 1 - lo = i - lo + 1 by omega, List.range'_1_concat, List.flatMap_append,
      List.flatMap_singleton, show lo + (i - lo) = i by omega]
  suffices hrule : Holds cap (xs ++ (List.range' lo (lo + n - lo)).flatMap items)
      (forLoop cond body n lo s) by
    simpa using hrule
  refine forLoop_rule (fun i s => Holds cap (xs ++ (List.range' lo (i - lo)).flatMap items) s) n
    (by simpa using h) ?_ ?_ ?_
  · intro i t t' hi _ ht hc hb
    have hleaves := hbody i _ t ht ((hcond t).1 hc)
    rw [hb] at hleaves
    rw [hsucc i hi, ← List.append_assoc]
    exact hleaves
  · intro i t t' hi hlt ht hc hb
    have hleaves := hbody i _ t ht ((hcond t).1 hc)
    rw [hb] at hleaves
    obtain ⟨hheld, hfull⟩ := hleaves
    obtain ⟨ys, hys⟩ := hsplit i hi hlt
    rw [show lo + n - lo = n by omega, hys, hsucc i hi, ← List.append_assoc, ← List.append_assoc]
    exact hheld.append_of_full hfull ys
  · intro i t hi hlt ht hc
    have hfull : Full cap t := by
      by_contra hf
      rw [(hcond t).2 hf] at hc
      exact absurd hc (by decide)
    obtain ⟨ys, hys⟩ := hsplit i hi hlt
    rw [show lo + n - lo = n by omega, hys, hsucc i hi, List.append_assoc, ← List.append_assoc xs]
    exact ht.append_of_full hfull _

end Tally

/-! ## The order of what is collected

Nested loops over increasing counters collect their items in the lexicographic order of the
counters' values. -/

/-- The keys of the items extend `pre` and increase lexicographically. -/
def Sorted (key : α → List ℕ) (pre : List ℕ) (xs : List α) : Prop :=
  (∀ x ∈ xs, pre <+: key x) ∧ xs.Pairwise fun x y => key x < key y

/-- Nothing is sorted. -/
theorem sorted_nil (key : α → List ℕ) (pre : List ℕ) : Sorted key pre [] := by
  simp [Sorted]

/-- One item is sorted. -/
theorem sorted_singleton {key : α → List ℕ} {pre : List ℕ} {x : α} (h : key x = pre) :
    Sorted key pre [x] := by
  simp [Sorted, h]

/-- A key with a smaller number after the common prefix is smaller. -/
theorem lt_of_prefix_concat {pre ks ls : List ℕ} {i j : ℕ} (hij : i < j)
    (hi : pre ++ [i] <+: ks) (hj : pre ++ [j] <+: ls) : ks < ls := by
  obtain ⟨ks', rfl⟩ := hi
  obtain ⟨ls', rfl⟩ := hj
  rw [List.append_assoc, List.append_assoc]
  exact List.append_left_lt (List.cons_lt_cons_iff.mpr (.inl hij))

/-- A loop whose body for `i` collects sorted items under `i` collects sorted items. -/
theorem sorted_flatMap {key : α → List ℕ} {pre : List ℕ} {items : ℕ → List α}
    (h : ∀ i, Sorted key (pre ++ [i]) (items i)) (lo n : ℕ) :
    Sorted key pre ((List.range' lo n).flatMap items) := by
  constructor
  · intro x hx
    obtain ⟨i, -, hx⟩ := List.mem_flatMap.mp hx
    exact (List.prefix_append pre [i]).trans ((h i).1 x hx)
  · rw [List.pairwise_flatMap]
    refine ⟨fun i _ => (h i).2, ?_⟩
    refine (List.pairwise_lt_range' 1).imp fun hij x hx y hy => ?_
    exact lt_of_prefix_concat hij ((h _).1 x hx) ((h _).1 y hy)

end KernelPortfolio.Loop
