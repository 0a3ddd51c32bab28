import Mathlib.Tactic.Common

/-!
# Interleavings

Several actors take steps on a common state, in an order that none of them controls. A schedule is
the list of the actors whose turn it is, and `exec` is the state that it leads to; an actor that
cannot step passes. `Along` says that every step that is taken has a property, and `along_iff`
reads it off the prefixes of the schedule. `exec_of_invariant` and `along_of_invariant` are the
invariant rules, under a condition `C` on the steps of the run.
-/

namespace KernelPortfolio.Schedule

variable {A S : Type*} (step : A → S → Option S)

/-- The state after an actor's turn. -/
def turn (a : A) (s : S) : S := (step a s).getD s

/-- The state after a schedule. -/
def exec : List A → S → S
  | [], s => s
  | a :: as, s => exec as (turn step a s)

/-- Every step that is taken along the schedule has the property, which may look at the actor and at
the state before the step. -/
def Along (P : A → S → Prop) : List A → S → Prop
  | [], _ => True
  | a :: as, s => ((step a s).isSome = true → P a s) ∧ Along P as (turn step a s)

instance Along.decidable (P : A → S → Prop) [∀ a s, Decidable (P a s)] :
    ∀ as s, Decidable (Along step P as s)
  | [], _ => .isTrue trivial
  | a :: as, s =>
    have := Along.decidable P as (turn step a s)
    inferInstanceAs (Decidable (((step a s).isSome = true → P a s) ∧ _))

variable {step} {P C : A → S → Prop} {I : S → Prop}

/-- A schedule after another one. -/
theorem exec_append (as bs : List A) (s : S) :
    exec step (as ++ bs) s = exec step bs (exec step as s) := by
  induction as generalizing s with
  | nil => rfl
  | cons a as ih => exact ih (turn step a s)

/-- The steps of a schedule are those taken in the states that its prefixes lead to. -/
theorem along_iff {as : List A} {s : S} :
    Along step P as s ↔ ∀ pre a post, as = pre ++ a :: post →
      (step a (exec step pre s)).isSome = true → P a (exec step pre s) := by
  induction as generalizing s with
  | nil => simp [Along]
  | cons a as ih =>
    unfold Along
    rw [ih]
    constructor
    · rintro ⟨hhead, htail⟩ pre b post heq
      cases pre with
      | nil =>
        obtain ⟨rfl, -⟩ := List.cons.inj heq
        exact hhead
      | cons c pre =>
        obtain ⟨rfl, htl⟩ := List.cons.inj heq
        exact htail pre b post htl
    · intro h
      refine ⟨h [] a as rfl, fun pre b post heq => ?_⟩
      exact h (a :: pre) b post (by rw [heq, List.cons_append])

/-- What holds at first and is kept by every step that meets the condition holds at the end. -/
theorem exec_of_invariant
    (hstep : ∀ a s s', step a s = some s' → I s → C a s → I s') {as : List A} {s : S}
    (hI : I s) (hC : Along step C as s) : I (exec step as s) := by
  induction as generalizing s with
  | nil => exact hI
  | cons a as ih =>
    obtain ⟨hhead, htail⟩ := hC
    refine ih ?_ htail
    unfold turn
    cases hs : step a s with
    | none => exact hI
    | some s' => exact hstep a s s' hs hI (hhead (by rw [hs]; rfl))

/-- What an invariant says of the next step holds of every step. -/
theorem along_of_invariant
    (hstep : ∀ a s s', step a s = some s' → I s → C a s → I s')
    (hP : ∀ a s s', step a s = some s' → I s → C a s → P a s) {as : List A} {s : S}
    (hI : I s) (hC : Along step C as s) : Along step P as s := by
  rw [along_iff] at hC ⊢
  intro pre a post heq hsome
  have hpre : Along step C pre s := by
    rw [along_iff]
    intro pre' b post' heq'
    exact hC pre' b (post' ++ a :: post) (by rw [heq, heq', List.append_assoc, List.cons_append])
  obtain ⟨s', hs'⟩ := Option.isSome_iff_exists.mp hsome
  exact hP a _ s' hs' (exec_of_invariant hstep hI hpre) (hC pre a post heq hsome)

end KernelPortfolio.Schedule
