import Mathlib.Tactic.Common

/-!
# Walks over a radix tree

A radix tree looks a key up through a chain of tables: at each level the key selects one entry of
the current table, and the entry is absent, a leaf, or names the table of the next level. `walk`
is the outcome of the chase. Nothing is assumed about the tables: they may alias, or contain
themselves. `walk_leaf_congr` compares two keys that agree down to the level of a leaf.
-/

namespace KernelPortfolio.Radix

variable {L T E V : Type*}

/-- What an entry tells a walker. -/
inductive Verdict (T : Type*) where
  /-- Nothing is mapped. -/
  | absent
  /-- The entry maps the key itself. -/
  | leaf
  /-- The lookup goes on in the table `next`. -/
  | table (next : T)

/-- One level of a walker: its name, the entry that a key selects in a table, and the walker's
verdict on an entry. -/
structure Level (L T E V : Type*) where
  /-- The level's name. -/
  tag : L
  /-- The entry of a table that a key selects. -/
  entry : T → V → E
  /-- The walker's verdict on an entry of this level. -/
  verdict : E → Verdict T

/-- Where a walk stops. -/
inductive Outcome (L T E : Type*) where
  /-- At an absent entry. -/
  | absent (tag : L) (e : E)
  /-- At a leaf. -/
  | leaf (tag : L) (e : E)
  /-- Below the last level, with the table that its entry named. -/
  | pending (t : T)

/-- The outcome of the lookup of `v` from the table `t`. -/
def walk : List (Level L T E V) → T → V → Outcome L T E
  | [], t, _ => .pending t
  | l :: ls, t, v =>
    match l.verdict (l.entry t v) with
    | .absent => .absent l.tag (l.entry t v)
    | .leaf => .leaf l.tag (l.entry t v)
    | .table next => walk ls next v

/-- A leaf is found at one of the walker's levels. -/
theorem exists_level_of_leaf {ls : List (Level L T E V)} {v : V} {tag : L} {e : E} :
    ∀ {t : T}, walk ls t v = .leaf tag e → ∃ l ∈ ls, l.tag = tag := by
  induction ls with
  | nil => intro t h; simp [walk] at h
  | cons l ls ih =>
    intro t h
    simp only [walk] at h
    cases hv : l.verdict (l.entry t v) with
    | absent => simp [hv] at h
    | leaf =>
      simp only [hv, Outcome.leaf.injEq] at h
      exact ⟨l, by simp, h.1⟩
    | table next =>
      simp only [hv] at h
      obtain ⟨m, hm, htag⟩ := ih h
      exact ⟨m, by simp [hm], htag⟩

/-- A key that selects the same entries as `v` down to the level of `v`'s leaf reaches the same
leaf. The levels are ordered by a rank that decreases along the walk. -/
theorem walk_leaf_congr (rank : L → ℕ) {ls : List (Level L T E V)}
    (hs : ls.Pairwise fun a b => rank b.tag < rank a.tag) {v v' : V} {tag : L} {e : E}
    (hv : ∀ l ∈ ls, rank tag ≤ rank l.tag → ∀ t, l.entry t v' = l.entry t v) :
    ∀ {t : T}, walk ls t v = .leaf tag e → walk ls t v' = .leaf tag e := by
  induction ls with
  | nil => intro t h; simp [walk] at h
  | cons l ls ih =>
    intro t h
    have hrank : rank tag ≤ rank l.tag := by
      obtain ⟨m, hm, rfl⟩ := exists_level_of_leaf h
      rcases List.mem_cons.mp hm with rfl | hm
      · exact Nat.le_refl _
      · exact Nat.le_of_lt (List.rel_of_pairwise_cons hs hm)
    have hentry := hv l (by simp) hrank t
    simp only [walk, hentry] at h ⊢
    cases hd : l.verdict (l.entry t v) with
    | absent => simp [hd] at h
    | leaf => simpa [hd] using h
    | table next =>
      simp only [hd] at h ⊢
      exact ih hs.of_cons (fun m hm => hv m (by simp [hm])) h

end KernelPortfolio.Radix
