import Mathlib.Data.List.Range
import Mathlib.Tactic.Common

/-!
# Writers into a buffer of bounded size

A writer puts items behind those that are in a buffer, and says whether the buffer is full now, in
which case nobody writes any more. `Puts` says that a writer puts the items of a list, as far as
they fit. It is kept by composition: writers one after another put the concatenation of what each of
them puts, whoever meets the end of the buffer (`puts_andThen`, `puts_inTurn`).
-/

namespace KernelPortfolio.Bounded

variable {α : Type*}

/-- A writer: from the items in the buffer to whether it is full, and the items after it. -/
abbrev Writer (α : Type*) := List α → Bool × List α

/-- One more item, into a buffer of `cap` items. -/
def put (cap : ℕ) (x : α) : Writer α := fun buf =>
  (decide (cap ≤ (buf ++ [x]).length), buf ++ [x])

/-- Nothing. -/
def skip : Writer α := fun buf => (false, buf)

/-- A writer, and another one if the buffer is not full. -/
def andThen (v w : Writer α) : Writer α := fun buf =>
  if (v buf).1 then v buf else w (v buf).2

/-- Writers, until the buffer is full. -/
def inTurn : List (Writer α) → Writer α
  | [] => skip
  | w :: ws => andThen w (inTurn ws)

/-- The result is that of a writer that puts the items `xs` behind `buf`: those that fit, and with
what is not put the buffer is full. -/
def Result (cap : ℕ) (xs buf : List α) (r : Bool × List α) : Prop :=
  r.2 = (buf ++ xs).take cap ∧ (r.1 = true ↔ cap ≤ (buf ++ xs).length)

/-- A writer puts the items `xs` behind whatever is in a buffer that is not full. -/
def Puts (cap : ℕ) (xs : List α) (w : Writer α) : Prop :=
  ∀ buf : List α, buf.length < cap → Result cap xs buf (w buf)

variable {cap : ℕ} {xs ys : List α} {v w : Writer α}

/-- Without an item the buffer is as before. -/
theorem puts_skip (cap : ℕ) : Puts cap ([] : List α) skip := by
  intro buf hbuf
  unfold Result skip
  rw [List.append_nil, List.take_of_length_le hbuf.le]
  exact ⟨rfl, iff_of_false Bool.false_ne_true (by omega)⟩

/-- `put` puts its item. -/
theorem puts_put (cap : ℕ) (x : α) : Puts cap [x] (put cap x) := by
  intro buf hbuf
  have hfits : (buf ++ [x]).length ≤ cap := by
    rw [List.length_append, List.length_singleton]
    exact hbuf
  unfold Result put
  rw [List.take_of_length_le hfits]
  exact ⟨rfl, decide_eq_true_iff⟩

/-- Two writers put the items of the first one and then those of the second one. -/
theorem puts_andThen (hv : Puts cap xs v) (hw : Puts cap ys w) :
    Puts cap (xs ++ ys) (andThen v w) := by
  intro buf hbuf
  obtain ⟨hitems, hfull⟩ := hv buf hbuf
  unfold Result andThen
  rw [← List.append_assoc]
  by_cases hle : cap ≤ (buf ++ xs).length
  · -- the first one fills the buffer
    rw [if_pos (hfull.mpr hle), List.take_append_of_le_length hle]
    refine ⟨hitems, iff_of_true (hfull.mpr hle) ?_⟩
    rw [List.length_append]
    omega
  · have hmid : (v buf).2 = buf ++ xs := by
      rw [hitems, List.take_of_length_le (by omega)]
    rw [if_neg (mt hfull.mp hle), hmid]
    exact hw (buf ++ xs) (by omega)

/-- Writers in turn put what each of them puts. -/
theorem puts_inTurn {β : Type*} {items : β → List α} {writer : β → Writer α} {bs : List β}
    (h : ∀ b ∈ bs, Puts cap (items b) (writer b)) :
    Puts cap (bs.flatMap items) (inTurn (bs.map writer)) := by
  induction bs with
  | nil => exact puts_skip cap
  | cons b bs ih =>
    rw [List.flatMap_cons]
    refine puts_andThen (h b (List.mem_cons_self ..)) (ih ?_)
    exact fun b' hb' => h b' (List.mem_cons_of_mem _ hb')

/-- A writer that starts with an empty buffer leaves as many of the items as fit. -/
theorem Puts.items_eq (h : Puts cap xs w) (hcap : 0 < cap) : (w []).2 = xs.take cap :=
  (h [] hcap).1

end KernelPortfolio.Bounded
