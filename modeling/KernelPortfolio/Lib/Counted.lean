import KernelPortfolio.Lib.Schedule
import Mathlib.Data.Int.Notation

/-!
# An object with a reference count

An object counts the references to it. Its owner runs a program that creates it, takes and drops
references, and reads the count. Others take and drop references to it in pairs, whenever they
like. `Code` is a program of the owner, and `Code.Keeps` what has to be checked of it, step by
step, with the references that it holds. `Code.Keeps.invariant` carries that through every
interleaving with the others, and `Code.Keeps.dropsWhatItTakes` is what follows for the owner and
for the count.
-/

namespace KernelPortfolio.Counted

open Schedule (Along exec)

/-- A program of the owner, with pointers of type `P`, which prints lines of type `L`. -/
inductive Code (P L R : Type) where
  | ret (r : R)
  | say (line : L) (next : Code P L R)
  /-- Create the object, which may fail. -/
  | create (next : Option P → Code P L R)
  | take (ptr : P) (next : Code P L R)
  | drop (ptr : P) (next : Code P L R)
  | read (ptr : P) (next : ℤ → Code P L R)

variable {P L R S : Type}

/-- A program, and then one that depends on its result. -/
def Code.bind : Code P L R → (R → Code P L S) → Code P L S
  | ret r, f => f r
  | say line next, f => .say line (next.bind f)
  | create next, f => .create fun p => (next p).bind f
  | take ptr next, f => .take ptr (next.bind f)
  | drop ptr next, f => .drop ptr (next.bind f)
  | read ptr next, f => .read ptr fun n => (next n).bind f

instance : Monad (Code P L) where
  pure := .ret
  bind := .bind

/-- The pointer that the next step goes through. -/
def Code.touched : Code P L R → Option P
  | take ptr _ => some ptr
  | drop ptr _ => some ptr
  | read ptr _ => some ptr
  | _ => none

/-- The program of the owner, the count of the object that it created last, the references of the
others to it, and how many references the owner took and dropped. -/
structure State (P L R : Type) where
  code : Code P L R
  count : ℤ
  held : ℕ
  taken : ℕ
  dropped : ℕ

/-- The program starts, without an object. -/
def State.start (code : Code P L R) : State P L R := ⟨code, 0, 0, 0, 0⟩

/-- The program has returned. -/
def State.Returned (s : State P L R) : Prop := ∃ r, s.code = .ret r

/-- Who takes a step. -/
inductive Actor where
  | owner
  | taker
  | dropper
  deriving DecidableEq, Repr

/-- A step of the owner, where a creation returns `made`, or of the others, who take a reference
when there is one, and drop what they took. -/
def step (made : Option P) : Actor → State P L R → Option (State P L R)
  | .owner, ⟨.ret _, _, _, _, _⟩ => none
  | .owner, ⟨.say _ next, count, held, taken, dropped⟩ => some ⟨next, count, held, taken, dropped⟩
  | .owner, ⟨.create next, count, held, taken, dropped⟩ =>
    match made with
    | none => some ⟨next none, count, held, taken, dropped⟩
    | some p => some ⟨next (some p), 1, 0, taken + 1, dropped⟩
  | .owner, ⟨.take _ next, count, held, taken, dropped⟩ =>
    some ⟨next, count + 1, held, taken + 1, dropped⟩
  | .owner, ⟨.drop _ next, count, held, taken, dropped⟩ =>
    some ⟨next, count - 1, held, taken, dropped + 1⟩
  | .owner, ⟨.read _ next, count, held, taken, dropped⟩ =>
    some ⟨next count, count, held, taken, dropped⟩
  | .taker, s =>
    if 0 < s.count then some { s with count := s.count + 1, held := s.held + 1 } else none
  | .dropper, s =>
    if 0 < s.held then some { s with count := s.count - 1, held := s.held - 1 } else none

/-- The owner touches only what it created, and only while it holds a reference to it. -/
def TouchesOwned (made : Option P) (a : Actor) (s : State P L R) : Prop :=
  a = .owner → ∀ ptr ∈ s.code.touched, made = some ptr ∧ s.dropped < s.taken

/-- In every interleaving with the others, the count is never below zero, the owner can always go on
until it returns, it has dropped as many references as it took when it does, and it touches the
object only while it holds one. -/
structure DropsWhatItTakes (made : Option P) (code : Code P L R) : Prop where
  count_nonneg : ∀ sched, 0 ≤ (exec (step made) sched (.start code)).count
  returns : ∀ sched, ∃ n,
    (exec (step made) (sched ++ .replicate n .owner) (.start code)).Returned
  balanced : ∀ sched, (exec (step made) sched (.start code)).Returned →
    (exec (step made) sched (.start code)).dropped = (exec (step made) sched (.start code)).taken
  touches : ∀ sched, Along (step made) (TouchesOwned made) sched (.start code)

/-! ## Programs that keep to their references -/

/-- The program holds `own` references. It takes and drops only what it created, and only while it
holds a reference to it, and where `strict` it reads only then, too. When it returns, its result
and the references that it still holds satisfy `Q`. -/
def Code.Keeps (strict : Prop) (made : Option P) (Q : R → ℕ → Prop) : Code P L R → ℕ → Prop
  | ret r, own => Q r own
  | say _ next, own => next.Keeps strict made Q own
  | create next, own => own = 0 ∧ (next made).Keeps strict made Q (if made.isSome then 1 else 0)
  | take ptr next, own => made = some ptr ∧ 0 < own ∧ next.Keeps strict made Q (own + 1)
  | drop ptr next, own => made = some ptr ∧ 0 < own ∧ next.Keeps strict made Q (own - 1)
  | read ptr next, own =>
    made = some ptr ∧ (strict → 0 < own) ∧ ∀ n, (next n).Keeps strict made Q own

variable {strict : Prop} {made : Option P} {Q : R → ℕ → Prop}

@[simp]
theorem keeps_pure (r : R) (own : ℕ) :
    (pure r : Code P L R).Keeps strict made Q own ↔ Q r own := Iff.rfl

/-- A program and then another one keep to their references, if the second does from where the first
returns. -/
@[simp]
theorem keeps_bind {Q : S → ℕ → Prop} (p : Code P L R) (f : R → Code P L S) (own : ℕ) :
    (p >>= f).Keeps strict made Q own ↔
      p.Keeps strict made (fun r n => (f r).Keeps strict made Q n) own := by
  change (p.bind f).Keeps strict made Q own ↔ _
  induction p generalizing own with
  | ret r => exact Iff.rfl
  | say line next ih => exact ih own
  | create next ih => exact and_congr_right fun _ => ih made _
  | take ptr next ih => exact and_congr_right fun _ => and_congr_right fun _ => ih _
  | drop ptr next ih => exact and_congr_right fun _ => and_congr_right fun _ => ih _
  | read ptr next ih =>
    exact and_congr_right fun _ => and_congr_right fun _ => forall_congr' fun n => ih n own

/-- What a program ends with may be weakened. -/
theorem Code.Keeps.mono {Q' : R → ℕ → Prop} {p : Code P L R} {own : ℕ}
    (h : p.Keeps strict made Q own) (hQ : ∀ r n, Q r n → Q' r n) :
    p.Keeps strict made Q' own := by
  induction p generalizing own with
  | ret r => exact hQ r own h
  | say line next ih => exact ih h
  | create next ih => exact ⟨h.1, ih made h.2⟩
  | take ptr next ih => exact ⟨h.1, h.2.1, ih h.2.2⟩
  | drop ptr next ih => exact ⟨h.1, h.2.1, ih h.2.2⟩
  | read ptr next ih => exact ⟨h.1, h.2.1, fun n => ih n (h.2.2 n)⟩

/-! ## Interleavings with the others -/

/-- What holds before every step: the count is that of the owner's references and of the others',
and the rest of the program keeps to the owner's. -/
def Invariant (strict : Prop) (made : Option P) (Q : R → ℕ → Prop) (s : State P L R) : Prop :=
  ∃ own : ℕ, s.taken = s.dropped + own ∧ s.count = own + s.held ∧ s.code.Keeps strict made Q own

/-- A step of the owner keeps the invariant. -/
theorem invariant_owner {s s' : State P L R} (hstep : step made .owner s = some s')
    (hinv : Invariant strict made Q s) : Invariant strict made Q s' := by
  obtain ⟨code, count, held, taken, dropped⟩ := s
  obtain ⟨own, htaken, hcount, hkeeps⟩ := hinv
  simp only at htaken hcount hkeeps
  cases code with
  | ret r => cases hstep
  | say line next =>
    cases hstep
    exact ⟨own, htaken, hcount, hkeeps⟩
  | create next =>
    obtain ⟨rfl, hnext⟩ := hkeeps
    cases made with
    | none =>
      -- a creation that fails takes nothing
      cases hstep
      exact ⟨0, htaken, hcount, hnext⟩
    | some p =>
      cases hstep
      exact ⟨1, by simp only; omega, by simp only; omega, hnext⟩
  | take ptr next =>
    obtain ⟨-, -, hnext⟩ := hkeeps
    cases hstep
    exact ⟨own + 1, by simp only; omega, by simp only; omega, hnext⟩
  | drop ptr next =>
    obtain ⟨-, hpos, hnext⟩ := hkeeps
    cases hstep
    exact ⟨own - 1, by simp only; omega, by simp only; omega, hnext⟩
  | read ptr next =>
    obtain ⟨-, -, hnext⟩ := hkeeps
    cases hstep
    exact ⟨own, htaken, hcount, hnext count⟩

/-- Every step keeps the invariant. -/
theorem invariant_step {a : Actor} {s s' : State P L R} (hstep : step made a s = some s')
    (hinv : Invariant strict made Q s) : Invariant strict made Q s' := by
  cases a with
  | owner => exact invariant_owner hstep hinv
  | taker =>
    obtain ⟨own, htaken, hcount, hkeeps⟩ := hinv
    simp only [step] at hstep
    split at hstep
    · cases hstep
      exact ⟨own, htaken, by simp only; omega, hkeeps⟩
    · cases hstep
  | dropper =>
    obtain ⟨own, htaken, hcount, hkeeps⟩ := hinv
    simp only [step] at hstep
    split at hstep
    · cases hstep
      exact ⟨own, htaken, by simp only; omega, hkeeps⟩
    · cases hstep

/-- The invariant holds after every schedule. -/
theorem Code.Keeps.invariant {p : Code P L R} (h : p.Keeps strict made Q 0) (sched : List Actor) :
    Invariant strict made Q (exec (step made) sched (.start p)) := by
  have hstart : Invariant strict made Q (State.start p) := ⟨0, rfl, rfl, h⟩
  refine Schedule.exec_of_invariant (C := fun _ _ => True)
    (fun a s s' hstep hinv _ => invariant_step hstep hinv) hstart ?_
  exact Schedule.along_iff.mpr fun _ _ _ _ _ => trivial

/-- The owner returns, from every state, when it is let run. -/
theorem exists_returned (made : Option P) (s : State P L R) :
    ∃ n, (exec (step made) (.replicate n .owner) s).Returned := by
  obtain ⟨code, count, held, taken, dropped⟩ := s
  induction code generalizing count held taken dropped with
  | ret r => exact ⟨0, r, rfl⟩
  | say line next ih =>
    obtain ⟨n, hn⟩ := ih count held taken dropped
    exact ⟨n + 1, hn⟩
  | create next ih =>
    cases made with
    | none =>
      obtain ⟨n, hn⟩ := ih none count held taken dropped
      exact ⟨n + 1, hn⟩
    | some p =>
      obtain ⟨n, hn⟩ := ih (some p) 1 0 (taken + 1) dropped
      exact ⟨n + 1, hn⟩
  | take ptr next ih =>
    obtain ⟨n, hn⟩ := ih (count + 1) held (taken + 1) dropped
    exact ⟨n + 1, hn⟩
  | drop ptr next ih =>
    obtain ⟨n, hn⟩ := ih (count - 1) held taken (dropped + 1)
    exact ⟨n + 1, hn⟩
  | read ptr next ih =>
    -- the rest depends on the count that is read
    obtain ⟨n, hn⟩ := ih count count held taken dropped
    exact ⟨n + 1, hn⟩

/-- A program that keeps to its references leaves the count at zero or above. -/
theorem Code.Keeps.count_nonneg {p : Code P L R} (h : p.Keeps strict made Q 0)
    (sched : List Actor) : 0 ≤ (exec (step made) sched (.start p)).count := by
  obtain ⟨own, -, hcount, -⟩ := h.invariant sched
  omega

/-- A program that keeps to its references, and returns with none, has dropped what it took. -/
theorem Code.Keeps.balanced {p : Code P L R} (h : p.Keeps strict made (fun _ n => n = 0) 0)
    {sched : List Actor} (hret : (exec (step made) sched (.start p)).Returned) :
    (exec (step made) sched (.start p)).dropped = (exec (step made) sched (.start p)).taken := by
  obtain ⟨own, htaken, -, hkeeps⟩ := h.invariant sched
  obtain ⟨r, hr⟩ := hret
  rw [hr] at hkeeps
  have hown : own = 0 := hkeeps
  omega

/-- The next step of a program that keeps to its references, reads included, goes to what it owns.
-/
theorem Code.Keeps.touched {p : Code P L R} {own : ℕ} (h : p.Keeps True made Q own) {ptr : P}
    (hptr : ptr ∈ p.touched) : made = some ptr ∧ 0 < own := by
  cases p with
  | take ptr' next =>
    obtain rfl : ptr' = ptr := Option.some.inj hptr
    exact ⟨h.1, h.2.1⟩
  | drop ptr' next =>
    obtain rfl : ptr' = ptr := Option.some.inj hptr
    exact ⟨h.1, h.2.1⟩
  | read ptr' next =>
    obtain rfl : ptr' = ptr := Option.some.inj hptr
    exact ⟨h.1, h.2.1 trivial⟩
  | _ => cases hptr

/-- A program that keeps to its references, reads included, and returns with none, drops what it
takes, whatever the others do. -/
theorem Code.Keeps.dropsWhatItTakes {p : Code P L R}
    (h : p.Keeps True made (fun _ n => n = 0) 0) : DropsWhatItTakes made p := by
  refine ⟨h.count_nonneg, fun sched => ?_, fun _ => h.balanced, fun sched => ?_⟩
  · obtain ⟨n, hn⟩ := exists_returned made (exec (step made) sched (.start p))
    refine ⟨n, ?_⟩
    rw [Schedule.exec_append]
    exact hn
  -- before each step, the invariant of the prefix gives the own references
  rw [Schedule.along_iff]
  intro pre a post _ _ ha ptr hptr
  obtain ⟨own, htaken, -, hkeeps⟩ := h.invariant pre
  obtain ⟨hmade, hpos⟩ := hkeeps.touched hptr
  exact ⟨hmade, by omega⟩

end KernelPortfolio.Counted
